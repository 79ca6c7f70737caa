import Offside.Text.Blank

/-! Scanners that split a text at the end of something recognised at its start. Each one returns
what it found together with the rest of the text, or nothing when the text starts otherwise. -/

namespace Offside.Text

def dropSpaces (text : List Char) : List Char := text.dropWhile (· == ' ')

def indentation (text : List Char) : Nat := (text.takeWhile (· == ' ')).length

def isNameStart (c : Char) : Bool := c == '_' || c.isAlpha

def isNameChar (c : Char) : Bool := c == '_' || c.isAlphanum

def splitNumber? (text : List Char) : Option (List Char × List Char) :=
  match text.takeWhile Char.isDigit with
  | [] => none
  | digits => some (digits, text.dropWhile Char.isDigit)

def splitName? : List Char → Option (List Char × List Char)
  | [] => none
  | c :: rest =>
    if isNameStart c then
      some (c :: rest.takeWhile isNameChar, rest.dropWhile isNameChar)
    else none

/- The entry with the longest pattern that the text starts with. Patterns are measured by their
UTF-8 size, and of equally long ones the last in the table is taken. -/
def longest? {α : Type} (text : List Char) : List (String × α) → Option (String × α)
  | [] => none
  | entry :: rest =>
    match longest? text rest with
    | none => if entry.1.toList.isPrefixOf text then some entry else none
    | some best =>
      if entry.1.toList.isPrefixOf text && decide (best.1.utf8ByteSize < entry.1.utf8ByteSize) then
        some entry
      else some best

def splitPattern? {α : Type} (table : List (String × α)) (text : List Char) :
    Option (α × List Char) :=
  (longest? text table).map fun entry => (entry.2, text.drop entry.1.length)

def splitWord? {α : Type} (table : List (String × α)) (text : List Char) :
    Option (α × List Char) :=
  match splitPattern? table text with
  | some (value, c :: rest) => if isNameChar c then none else some (value, c :: rest)
  | found => found

inductive Quotation where
  | absent
  | unterminated
  | closed (content rest : List Char)
  deriving DecidableEq, Repr

def splitQuoted (mark : Char) : List Char → Quotation
  | [] => .absent
  | c :: body =>
    if c == mark then
      match body.dropWhile (· != mark) with
      | [] => .unterminated
      | _ :: rest => .closed (body.takeWhile (· != mark)) rest
    else .absent

theorem splitNumberParts {text digits rest : List Char}
    (found : splitNumber? text = some (digits, rest)) :
    digits ++ rest = text ∧ digits ≠ [] ∧ digits.all Char.isDigit = true := by
  unfold splitNumber? at found
  split at found
  · contradiction
  · rename_i nonempty
    cases found
    exact ⟨List.takeWhile_append_dropWhile, nonempty, List.all_takeWhile⟩

theorem splitNameParts {text name rest : List Char}
    (found : splitName? text = some (name, rest)) :
    name ++ rest = text ∧ name ≠ [] := by
  cases text with
  | nil => contradiction
  | cons c tail =>
    simp only [splitName?] at found
    split at found
    · cases found
      exact ⟨by simp [List.takeWhile_append_dropWhile], by simp⟩
    · contradiction

end Offside.Text
