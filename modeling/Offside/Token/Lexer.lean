import Offside.Event
import Offside.Integer
import Offside.Source
import Offside.Text.Split
import Offside.Token.Basic

/-! The lexer: a machine that is asked for one token at a time and reads the source line by line. The
indentation of a line is settled before its first token, one level per call, and blank lines give
no token at all. A failed call leaves the current token as it was. -/

namespace Offside

inductive LexError where
  | unrecognized (remainder : List Char) (line : Nat)
  | tabIndent (line : Nat)
  | integerTooLarge (literal : List Char) (line : Nat)
  | openString (line : Nat)
  | unreadable (cause : ReadError) (line : Nat)
  deriving DecidableEq, Repr

def LexError.message : LexError → String
  | unrecognized remainder line =>
    "Unrecognized token at line " ++ toString line ++ ": '" ++ String.ofList remainder ++ "'"
  | tabIndent line =>
    "Tabs are not supported for indentation at line " ++ toString line
  | integerTooLarge literal line =>
    "Invalid integer literal '" ++ String.ofList literal ++ "' at line " ++ toString line
  | openString line => "Unterminated string literal at line " ++ toString line
  | unreadable cause line =>
    "Failed to read source at line " ++ toString line ++ ": " ++ cause.message

namespace Token

def keywordTable : List (String × Token) :=
  Keyword.all.map fun word => (word.spelling, .keyword word)

def comparisonTable : List (String × Token) :=
  [("==", .eq), ("!=", .notEq), ("<=", .lessOrEq), (">=", .greaterOrEq)]

def symbols : List Char := ['=', '.', ',', '(', ')', ':', '+', '-', '*', '/', '<', '>']

def quotationMarks : Char × Char := ('\'', '"')

def scanQuoted (text : List Char) (line : Nat) : Except LexError (Token × List Char) :=
  match Text.splitQuoted quotationMarks.1 text with
  | .closed content rest => .ok (.string (String.ofList content), rest)
  | .unterminated => .error (.openString line)
  | .absent =>
    match Text.splitQuoted quotationMarks.2 text with
    | .closed content rest => .ok (.string (String.ofList content), rest)
    | .unterminated => .error (.openString line)
    | .absent => .error (.unrecognized text line)

def scan (text : List Char) (line : Nat) : Except LexError (Token × List Char) :=
  match Text.splitNumber? text with
  | some (digits, rest) =>
    match Integer.ofDigits? digits with
    | some value => .ok (.number value, rest)
    | none => .error (.integerTooLarge digits line)
  | none =>
    match Text.splitWord? keywordTable text with
    | some found => .ok found
    | none =>
      match Text.splitName? text with
      | some (name, rest) => .ok (.identifier (String.ofList name), rest)
      | none =>
        match Text.splitPattern? comparisonTable text with
        | some found => .ok found
        | none =>
          match text with
          | c :: rest => if c ∈ symbols then .ok (.char c, rest) else scanQuoted text line
          | [] => scanQuoted text line

end Token

structure Cursor where
  done : List Char
  rest : List Char
  deriving DecidableEq, Repr

namespace Cursor

def atStart (text : List Char) : Cursor := ⟨[], text⟩

def line (cursor : Cursor) : List Char := cursor.done ++ cursor.rest

def moveTo (cursor : Cursor) (rest : List Char) : Cursor :=
  ⟨cursor.done ++ cursor.rest.take (cursor.rest.length - rest.length), rest⟩

end Cursor

/-- The lexer between two calls. `buffer` is the line being read; `level` is the indentation level
for which tokens have been delivered; `lineNumber` counts the lines read, blank ones included. -/
structure Lexer where
  source : Source
  buffer : Option Cursor
  lineNumber : Nat
  level : Nat
  current : Token

namespace Lexer

def levelWidth : Nat := 2

inductive Fetched where
  | finished (lineNumber : Nat)
  | failed (cause : ReadError) (rest : Source) (lineNumber : Nat)
  | entered (text : List Char) (rest : Source) (lineNumber : Nat)

def fetchFrom : List (Except ReadError (List Char)) → Nat → Fetched
  | [], lineNumber => .finished lineNumber
  | .error cause :: rest, lineNumber => .failed cause ⟨rest⟩ lineNumber
  | .ok text :: rest, lineNumber =>
    if Text.isBlank text then fetchFrom rest (lineNumber + 1)
    else .entered text ⟨rest⟩ (lineNumber + 1)

def fetch (lexer : Lexer) : Fetched := fetchFrom lexer.source.lines lexer.lineNumber

def scanAt (lexer : Lexer) (cursor : Cursor) : Except LexError Token × Lexer :=
  let text := cursor.rest.dropWhile fun c => c == ' ' || c == '\t'
  match Token.scan text lexer.lineNumber with
  | .error error => (.error error, lexer)
  | .ok (token, rest) => (.ok token, { lexer with buffer := some (cursor.moveTo rest) })

def settle (lexer : Lexer) (cursor : Cursor) : Except LexError Token × Lexer :=
  if (Text.dropSpaces cursor.rest).head? = some '\t' then
    (.error (.tabIndent lexer.lineNumber), lexer)
  else
    let target := Text.indentation cursor.rest / levelWidth
    if lexer.level < target then (.ok .indent, { lexer with level := lexer.level + 1 })
    else if target < lexer.level then (.ok .dedent, { lexer with level := lexer.level - 1 })
    else lexer.scanAt cursor

def readLine (lexer : Lexer) (cursor : Cursor) : Except LexError Token × Lexer :=
  if Text.isBlank cursor.rest then (.ok .newline, { lexer with buffer := none })
  else if cursor.done = [] then lexer.settle cursor
  else lexer.scanAt cursor

def finish (lexer : Lexer) : Except LexError Token × Lexer :=
  if lexer.level = 0 then (.ok .eof, lexer)
  else (.ok .dedent, { lexer with level := lexer.level - 1 })

def read (lexer : Lexer) : Except LexError Token × Lexer :=
  match lexer.buffer with
  | some cursor => lexer.readLine cursor
  | none =>
    match lexer.fetch with
    | .finished lineNumber =>
      finish { lexer with source := ⟨[]⟩, lineNumber := lineNumber }
    | .failed cause rest lineNumber =>
      (.error (.unreadable cause (lineNumber + 1)),
        { lexer with source := rest, lineNumber := lineNumber })
    | .entered text rest lineNumber =>
      let cursor := Cursor.atStart text
      settle { lexer with source := rest, buffer := some cursor, lineNumber := lineNumber } cursor

def next (lexer : Lexer) : Except LexError Token × Lexer :=
  match lexer.read with
  | (.ok token, after) => (.ok token, { after with current := token })
  | (.error error, after) => (.error error, after)

def upcoming? (lexer : Lexer) : Option Event :=
  match lexer.buffer with
  | some _ => none
  | none =>
    match lexer.fetch with
    | .entered text _ lineNumber => some (.lineEntered lineNumber text)
    | _ => none

def ofSource (source : Source) : Lexer := ⟨source, none, 0, 0, .eof⟩

def start (source : Source) : Except LexError Lexer :=
  match (ofSource source).next with
  | (.ok _, lexer) => .ok lexer
  | (.error error, _) => .error error

end Lexer

end Offside
