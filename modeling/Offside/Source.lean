/-! Program sources as they are read: bytes cut into lines at every line feed. Each line is decoded by
itself, so a line that is not text is a failure of that line alone and the lines after it can still
be read. -/

namespace Offside

inductive ReadError where
  | invalidText
  | directory
  deriving DecidableEq, Repr

def ReadError.message : ReadError → String
  | .invalidText => "stream did not contain valid UTF-8"
  | .directory => "Is a directory (os error 21)"

structure Source where
  lines : List (Except ReadError (List Char))

namespace Source

/- Cuts bytes at every line feed. Bytes after the last line feed are a line, an empty remainder
is none. -/
def splitLines : List UInt8 → List (List UInt8)
  | [] => []
  | byte :: rest =>
    if byte = 0x0A then [] :: splitLines rest
    else
      match splitLines rest with
      | [] => [[byte]]
      | line :: more => (byte :: line) :: more

def trimLineEnd (text : List Char) : List Char :=
  (text.reverse.dropWhile (· == '\r')).reverse

def decodeLine (bytes : List UInt8) : Except ReadError (List Char) :=
  match String.fromUTF8? ⟨bytes.toArray⟩ with
  | some text => .ok (trimLineEnd text.toList)
  | none => .error .invalidText

def ofBytes (bytes : List UInt8) : Source := ⟨(splitLines bytes).map decodeLine⟩

def ofString (text : String) : Source := ofBytes text.toUTF8.data.toList

def ofDirectory : Source := ⟨[.error .directory]⟩

/- An upper bound on the tokens that the source can hold: every line gives at most one for each
of its characters and one for its end. -/
def weight (source : Source) : Nat :=
  source.lines.foldr (fun line total => total + match line with
    | .ok text => text.length + 1
    | .error _ => 1) 0

end Source

end Offside
