import Offside.Execution.State
import Offside.Integer

/-! What operators do with values: exact integer arithmetic, and the comparisons, which are defined for
two integers or two strings. -/

namespace Offside

namespace ArithmeticOp

def exact : ArithmeticOp → Int → Int → Int
  | add => (· + ·)
  | subtract => (· - ·)
  | multiply => (· * ·)
  | divide => Int.tdiv

def apply (op : ArithmeticOp) (left right : Int64) : Except RuntimeError Int64 :=
  if op = divide ∧ right = 0 then .error .divisionByZero
  else
    match Integer.ofInt? (op.exact left.toInt right.toInt) with
    | some result => .ok result
    | none => .error (.overflow op.symbol)

end ArithmeticOp

namespace Value

def equals? : Value → Value → Option Bool
  | number left, number right => some (left == right)
  | string left, string right => some (left == right)
  | _, _ => Option.none

def precedes? : Value → Value → Option Bool
  | number left, number right => some (decide (left < right))
  | string left, string right => some (decide (left < right))
  | _, _ => Option.none

end Value

namespace Relation

def holds? (relation : Relation) (left right : Value) : Option Bool :=
  match relation with
  | equal => left.equals? right
  | notEqual => (left.equals? right).map (!·)
  | less => left.precedes? right
  | greater => do
    let less ← left.precedes? right
    let same ← left.equals? right
    return !less && !same
  | lessOrEqual => do
    let less ← left.precedes? right
    let same ← left.equals? right
    return less || same
  | greaterOrEqual => (left.precedes? right).map (!·)

def basis : Relation → Relation
  | equal | notEqual => equal
  | less | greater | lessOrEqual | greaterOrEqual => less

def decide (classes : ClassTable) (heap : Heap) (relation : Relation) (left right : Value) :
    Except RuntimeError Bool :=
  match relation.holds? left right with
  | some verdict => .ok verdict
  | none =>
    .error (.operandTypes relation.basis.symbol (left.typeName classes heap)
      (right.typeName classes heap))

end Relation

namespace Path

def follow (classes : ClassTable) (heap : Heap) (walked : Path) (value : Value) :
    Path → Except RuntimeError Value
  | [] => .ok value
  | field :: rest =>
    match value with
    | .object address =>
      match heap.field? address field with
      | some next => follow classes heap (walked ++ [field]) next rest
      | none => .error (.noField walked.text field (value.typeName classes heap))
    | _ => .error (.notAnObject walked.text (value.typeName classes heap))

def read (classes : ClassTable) (scope : Bindings) (heap : Heap) :
    Path → Except RuntimeError Value
  | [] => .error (.unbound "")
  | name :: fields =>
    match scope.get? name with
    | some value => follow classes heap [name] value fields
    | none => .error (.unbound name)

end Path

end Offside
