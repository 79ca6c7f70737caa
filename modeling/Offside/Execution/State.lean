import Offside.Event
import Offside.Machine
import Offside.Memory.Heap
import Offside.Memory.Sink

/-! The state of a running program and the steps that change it. -/

namespace Offside

inductive RuntimeError where
  | unbound (name : String)
  | noField (object field typeName : String)
  | notAnObject (object typeName : String)
  | noMethod (cls method : String) (arity : Nat)
  | operandTypes (operation left right : String)
  | divisionByZero
  | overflow (operation : String)
  | nameTaken (name : String)
  | sinkFull
  deriving DecidableEq, Repr

def RuntimeError.message : RuntimeError → String
  | unbound name => "Unknown variable '" ++ name ++ "'"
  | noField object field typeName =>
    "Object '" ++ object ++ "' of type " ++ typeName ++ " has no field '" ++ field ++ "'"
  | notAnObject object typeName =>
    "'" ++ object ++ "' is " ++ typeName ++ ", not a class instance"
  | noMethod cls method arity =>
    "Method " ++ cls ++ "." ++ method ++ " taking " ++ toString arity ++ " argument(s) doesn't exist"
  | operandTypes operation left right =>
    "Unsupported operand types for " ++ operation ++ ": " ++ left ++ " and " ++ right
  | divisionByZero => "Division by zero"
  | overflow operation => "Integer overflow in " ++ operation
  | nameTaken name => "Class '" ++ name ++ "' is already defined"
  | sinkFull => "Failed to write program output: sink full"

structure State where
  scope : Bindings
  heap : Heap
  sink : Sink
  trace : Trace

abbrev Exec := Machine RuntimeError State

namespace State

def initial (sink : Sink) : State := ⟨.empty, .empty, sink, .empty⟩

end State

namespace Exec

def bindName (name : String) (value : Value) : Exec Unit :=
  Machine.modify fun state => { state with scope := state.scope.insert name value }

def setField (address : Address) (field : String) (value : Value) : Exec Unit :=
  Machine.modify fun state => { state with heap := state.heap.setField address field value }

def create (cls : ClassId) : Exec Address := fun state =>
  .done state.heap.fresh { state with heap := state.heap.create cls }

def record (event : Event) : Exec Unit :=
  Machine.modify fun state => { state with trace := state.trace.push event }

def writeLine (text : String) : Exec Unit := fun state =>
  match state.sink.writeLine text with
  | (true, sink) => .done () { state with sink := sink }
  | (false, sink) => .failed .sinkFull { state with sink := sink }

def typeName (classes : ClassTable) (value : Value) : Exec String := fun state =>
  .done (value.typeName classes state.heap) state

def inScope {α : Type} (scope : Bindings) (body : Exec α) : Exec α := fun state =>
  let outer := state.scope
  (body { state with scope := scope }).mapState fun after => { after with scope := outer }

end Exec

end Offside
