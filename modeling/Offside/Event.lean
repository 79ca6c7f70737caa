import Offside.Text.Quoted

/-! What reading and running a program reports as it goes: the log. -/

namespace Offside

inductive Event where
  | lineEntered (line : Nat) (text : List Char)
  | classDeclared (name : String) (methods : Nat) (parent : Option String)
  | programParsed (statements classes : Nat)
  | runStarted (statements : Nat)
  | classDefined (name : String)
  | methodCalled (owner method : String)
  | runFinished (bindings : Nat)
  deriving DecidableEq, Repr

namespace Event

def isFine : Event → Bool
  | lineEntered .. | methodCalled .. => true
  | _ => false

def message : Event → String
  | lineEntered line text => "line " ++ toString line ++ ": " ++ Text.quoted text
  | classDeclared name methods none =>
    "declared class " ++ name ++ " with " ++ toString methods ++ " methods"
  | classDeclared name methods (some parent) =>
    "declared class " ++ name ++ " with " ++ toString methods ++ " methods, parent " ++ parent
  | programParsed statements classes =>
    "parsed " ++ toString statements ++ " top-level statements, " ++ toString classes ++ " classes"
  | runStarted statements =>
    "running program with " ++ toString statements ++ " top-level statements"
  | classDefined name => "defining class " ++ name
  | methodCalled owner method => "calling " ++ owner ++ "." ++ method
  | runFinished bindings => "program finished with " ++ toString bindings ++ " global bindings"

end Event

structure Trace where
  latestFirst : List Event
  deriving DecidableEq, Repr

namespace Trace

def empty : Trace := ⟨[]⟩

def push (trace : Trace) (event : Event) : Trace := ⟨event :: trace.latestFirst⟩

def events (trace : Trace) : List Event := trace.latestFirst.reverse

end Trace

end Offside
