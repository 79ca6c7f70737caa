import Offside.Machine
import Offside.Program.ClassTable
import Offside.Token.Stream

/-! Parsing steps: looking at the current token, moving to the next one, and requiring a token to be
there. A parser sees one token ahead and never moves back. -/

namespace Offside

inductive Expectation where
  | token (token : Token)
  | identifier
  | expression
  | assignmentOrCall
  deriving DecidableEq, Repr

def Expectation.text : Expectation → String
  | .token expected => expected.label
  | identifier => "identifier"
  | expression => "expression"
  | assignmentOrCall => "'=' or '('"

inductive ParseError where
  | lexical (error : LexError)
  | mismatch (expected : Expectation) (found : Token) (line : Nat)
  | unknownBase (base name : String) (line : Nat)
  | declaredTwice (name : String) (line : Nat)
  | unknownFunction (name : String) (line : Nat)
  | stringArity (count line : Nat)
  deriving DecidableEq, Repr

def ParseError.message : ParseError → String
  | lexical error => error.message
  | mismatch expected found line =>
    "Expected " ++ expected.text ++ ", got " ++ found.label ++ " at line " ++ toString line
  | unknownBase base name line =>
    "Base class " ++ base ++ " not found for class " ++ name ++ " at line " ++ toString line
  | declaredTwice name line => "Class " ++ name ++ " already exists at line " ++ toString line
  | unknownFunction name line =>
    "Mython has no free functions: unknown call to " ++ name ++ "() at line " ++ toString line
  | stringArity count line =>
    "Function str takes exactly one argument, got " ++ toString count ++ " at line " ++ toString line

structure ParserState where
  current : Lexeme
  upcoming : List Lexeme
  failure : Option LexFailure
  classes : ClassTable
  trace : Trace

abbrev Parser := Machine ParseError ParserState

namespace ParserState

def ofStream (stream : TokenStream) (classes : ClassTable) : ParserState :=
  ⟨⟨.eof, 0, none⟩, stream.lexemes, stream.failure, classes, .empty⟩

def record (event : Option Event) (state : ParserState) : ParserState :=
  match event with
  | some event => { state with trace := state.trace.push event }
  | none => state

end ParserState

namespace Parser

def current : Parser Token := fun state => .done state.current.token state

def line : Parser Nat := fun state => .done state.current.line state

def classes : Parser ClassTable := fun state => .done state.classes state

/- Moves to the next token, or fails as the lexer did when there is none. Nothing follows the end of
the source, and no parser asks for it. -/
def advance : Parser Unit := fun state =>
  match state.upcoming, state.failure with
  | next :: rest, _ =>
    .done () ({ state with current := next, upcoming := rest }.record next.event)
  | [], some failure => .failed (.lexical failure.error) (state.record failure.event)
  | [], none => .exhausted

def unexpected {α : Type} (expected : Expectation) : Parser α := do
  let found ← current
  let line ← line
  Machine.fail (.mismatch expected found line)

def expect (token : Token) : Parser Unit := do
  let found ← current
  if found = token then advance else unexpected (.token token)

def expectChar (symbol : Char) : Parser Unit := expect (.char symbol)

def identifier : Parser String := do
  match ← current with
  | .identifier name => do
    advance
    pure name
  | _ => unexpected .identifier

/- Runs a repetition with a bound that it cannot reach: every round takes a token, and there is one
more round than there are tokens to take. -/
def bounded {α : Type} (repetition : Nat → Parser α) : Parser α := fun state =>
  repetition (state.upcoming.length + 1) state

def commaRest {α : Type} (item : Parser α) : Nat → Parser (List α)
  | 0 => Machine.exhaust
  | rounds + 1 => do
    let token ← current
    if token = .char ',' then
      advance
      let head ← item
      let rest ← commaRest item rounds
      pure (head :: rest)
    else pure []

def commaSeparated {α : Type} (item : Parser α) : Parser (List α) := do
  let head ← item
  let rest ← bounded (commaRest item)
  pure (head :: rest)

def dottedRest : Nat → Path → String → Parser (Path × String)
  | 0, _, _ => Machine.exhaust
  | rounds + 1, path, last => do
    let token ← current
    if token = .char '.' then
      advance
      let next ← identifier
      dottedRest rounds (path ++ [last]) next
    else pure (path, last)

def dotted : Parser (Path × String) := do
  let first ← identifier
  bounded fun rounds => dottedRest rounds [] first

end Parser

end Offside
