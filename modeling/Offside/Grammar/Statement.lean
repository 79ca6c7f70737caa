import Offside.Grammar.Expression

/-! The grammar of statements and of whole programs. As with expressions, the parser of a nested
statement is a parameter, and nested statements come after tokens of their own. -/

namespace Offside.Parser

def assignmentOrCall : Parser Stmt := do
  let line ← line
  let (path, last) ← dotted
  let token ← current
  if token = .char '=' then
    advance
    let value ← expression
    match path with
    | [] => pure (.assign last value)
    | path => pure (.setField path last value)
  else if token = .char '(' then callRest expression path last line
  else unexpected .assignmentOrCall

def simpleStatement : Parser Stmt := do
  match ← current with
  | .keyword .returnK => do
    advance
    let value ← expression
    pure (.result value)
  | .keyword .printK => do
    advance
    let args ← listUntil .newline expression
    pure (.print args)
  | _ => assignmentOrCall

def statementsUntil (stop : Token) (statement : Parser Stmt) : Nat → Parser (List Stmt)
  | 0 => Machine.exhaust
  | rounds + 1 => do
    let token ← current
    if token = stop then pure []
    else
      let head ← statement
      let rest ← statementsUntil stop statement rounds
      pure (head :: rest)

def suite (nested : Parser Stmt) : Parser Stmt := do
  expect .newline
  expect .indent
  let body ← bounded (statementsUntil .dedent nested)
  expect .dedent
  pure (.block body)

def conditional (nested : Parser Stmt) : Parser Stmt := do
  expect (.keyword .ifK)
  let condition ← expression
  expectChar ':'
  let yes ← suite nested
  let token ← current
  if token = .keyword .elseK then
    advance
    expectChar ':'
    let no ← suite nested
    pure (.branch condition yes (some no))
  else pure (.branch condition yes none)

def parameters : Parser (List String) := do
  match ← current with
  | .identifier _ => commaSeparated identifier
  | _ => pure []

def method (nested : Parser Stmt) : Parser Method := do
  expect (.keyword .defK)
  let name ← identifier
  expectChar '('
  let params ← parameters
  expectChar ')'
  expectChar ':'
  let body ← suite nested
  pure ⟨name, params, body⟩

def methods (nested : Parser Stmt) : Nat → Parser (List Method)
  | 0 => Machine.exhaust
  | rounds + 1 => do
    let token ← current
    if token = .keyword .defK then
      let head ← method nested
      let rest ← methods nested rounds
      pure (head :: rest)
    else pure []

def baseClass (name : String) (line : Nat) : Parser (Option ClassId) := do
  let token ← current
  if token = .char '(' then
    advance
    let base ← identifier
    expectChar ')'
    match (← classes).find? base with
    | some parent => pure (some parent)
    | none => Machine.fail (.unknownBase base name line)
  else pure none

def declare (name : String) (parent : Option ClassId) (methods : List Method) (line : Nat) :
    Parser Stmt := fun state =>
  match state.classes.find? name with
  | some _ => .failed (.declaredTwice name line) state
  | none =>
    .done (.define state.classes.classes.size)
      { state with
        classes := state.classes.declare name parent methods
        trace := state.trace.push
          (.classDeclared name methods.length (parent.map state.classes.nameOf)) }

def classDefinition (nested : Parser Stmt) : Parser Stmt := do
  let line ← line
  expect (.keyword .classK)
  let name ← identifier
  let parent ← baseClass name line
  expectChar ':'
  expect .newline
  expect .indent
  let token ← current
  if token = .keyword .defK then
    let methods ← bounded (methods nested)
    expect .dedent
    declare name parent methods line
  else unexpected (.token (.keyword .defK))

def statementOver (nested : Parser Stmt) : Parser Stmt := do
  match ← current with
  | .keyword .classK => classDefinition nested
  | .keyword .ifK => conditional nested
  | _ => do
    let statement ← simpleStatement
    expect .newline
    pure statement

def statementWithin : Nat → Parser Stmt
  | 0 => Machine.exhaust
  | depth + 1 => fun state => statementOver (statementWithin depth) state

def statement : Parser Stmt := bounded statementWithin

def finish (statements : List Stmt) : Parser Program := fun state =>
  .done ⟨statements, state.classes⟩
    (state.record (some (.programParsed statements.length state.classes.visible.length)))

def program : Parser Program := do
  advance
  let statements ← bounded (statementsUntil .eof statement)
  finish statements

end Offside.Parser

namespace Offside.Program

/-- Parses a source. `classes` holds the classes that may be named in it without being declared
there, and those that its objects may still have. -/
def parseWith (classes : ClassTable) (source : Source) : Outcome ParseError ParserState Program :=
  Parser.program (ParserState.ofStream (TokenStream.ofSource source) classes)

def parse (source : Source) : Outcome ParseError ParserState Program := parseWith .empty source

end Offside.Program
