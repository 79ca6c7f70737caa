import Offside.Grammar.Step

/-! The grammar of expressions, from the loosest operator to the tightest: `or`, `and`, `not`, one
comparison, sums, products, factors. Each level takes the parser of a nested expression as a
parameter; a nested expression always comes after a token of its own, so the nesting is bounded by
the number of tokens. -/

namespace Offside.Parser

def chainRest (operator : Token → Option (Stmt → Stmt → Stmt)) (operand : Parser Stmt) :
    Nat → Stmt → Parser Stmt
  | 0, _ => Machine.exhaust
  | rounds + 1, left => do
    let token ← current
    match operator token with
    | some combine => do
      advance
      let right ← operand
      chainRest operator operand rounds (combine left right)
    | none => pure left

def chain (operator : Token → Option (Stmt → Stmt → Stmt)) (operand : Parser Stmt) :
    Parser Stmt := do
  let left ← operand
  bounded fun rounds => chainRest operator operand rounds left

def bareCall (name : String) (args : List Stmt) (line : Nat) : Parser Stmt := do
  match (← classes).find? name with
  | some cls => pure (.create cls args)
  | none =>
    if name = "str" then
      match args with
      | [arg] => pure (.stringify arg)
      | _ => Machine.fail (.stringArity args.length line)
    else Machine.fail (.unknownFunction name line)

def listUntil (stop : Token) (item : Parser Stmt) : Parser (List Stmt) := do
  let token ← current
  if token = stop then pure [] else commaSeparated item

def arguments (nested : Parser Stmt) : Parser (List Stmt) := do
  expectChar '('
  let args ← listUntil (.char ')') nested
  expectChar ')'
  pure args

def callRest (nested : Parser Stmt) (path : Path) (name : String) (line : Nat) : Parser Stmt := do
  let args ← arguments nested
  match path with
  | [] => bareCall name args line
  | path => pure (.call (.path path) name args)

def pathOrCall (nested : Parser Stmt) : Parser Stmt := do
  let line ← line
  let (path, last) ← dotted
  let token ← current
  if token = .char '(' then callRest nested path last line else pure (.path (path ++ [last]))

def parenthesized (nested : Parser Stmt) : Parser Stmt := do
  advance
  let inner ← nested
  expectChar ')'
  pure inner

def literal (value : Stmt) : Parser Stmt := do
  advance
  pure value

def opposite (operand : Stmt) : Stmt := .arithmetic .multiply operand (.number (-1))

def factor (nested : Parser Stmt) : Nat → Parser Stmt
  | 0 => Machine.exhaust
  | rounds + 1 => do
    match ← current with
    | .char '(' => parenthesized nested
    | .char '-' => do
      advance
      let operand ← factor nested rounds
      pure (opposite operand)
    | .keyword .trueK => literal (.bool true)
    | .keyword .falseK => literal (.bool false)
    | .keyword .noneK => literal .none
    | .number value => literal (.number value)
    | .string content => literal (.string content)
    | .identifier _ => pathOrCall nested
    | _ => unexpected .expression

def productOperator : Token → Option (Stmt → Stmt → Stmt)
  | .char '*' => some (.arithmetic .multiply)
  | .char '/' => some (.arithmetic .divide)
  | _ => none

def sumOperator : Token → Option (Stmt → Stmt → Stmt)
  | .char '+' => some (.arithmetic .add)
  | .char '-' => some (.arithmetic .subtract)
  | _ => none

def relation? : Token → Option Relation
  | .char '<' => some .less
  | .char '>' => some .greater
  | .eq => some .equal
  | .notEq => some .notEqual
  | .lessOrEq => some .lessOrEqual
  | .greaterOrEq => some .greaterOrEqual
  | _ => none

def andOperator : Token → Option (Stmt → Stmt → Stmt)
  | .keyword .andK => some .both
  | _ => none

def orOperator : Token → Option (Stmt → Stmt → Stmt)
  | .keyword .orK => some .either
  | _ => none

def product (nested : Parser Stmt) : Parser Stmt := chain productOperator (bounded (factor nested))

def sum (nested : Parser Stmt) : Parser Stmt := chain sumOperator (product nested)

def comparison (nested : Parser Stmt) : Parser Stmt := do
  let left ← sum nested
  let token ← current
  match relation? token with
  | some relation => do
    advance
    let right ← sum nested
    pure (.compare relation left right)
  | none => pure left

def negation (nested : Parser Stmt) : Nat → Parser Stmt
  | 0 => Machine.exhaust
  | rounds + 1 => do
    let token ← current
    if token = .keyword .notK then
      advance
      let operand ← negation nested rounds
      pure (.negate operand)
    else comparison nested

def conjunction (nested : Parser Stmt) : Parser Stmt := chain andOperator (bounded (negation nested))

def disjunction (nested : Parser Stmt) : Parser Stmt := chain orOperator (conjunction nested)

def expressionWithin : Nat → Parser Stmt
  | 0 => Machine.exhaust
  | depth + 1 => fun state => disjunction (expressionWithin depth) state

def expression : Parser Stmt := bounded expressionWithin

end Offside.Parser
