import Offside.Execution.Statement

/-! Method calls. The body of a method is executed with a dispatch of its own, one call deeper, so the
depth of nested calls is what bounds an execution. -/

namespace Offside

def callScope (receiver : Value) (params : List String) (args : List Value) : Bindings :=
  (params.zip args).foldl (fun scope binding => scope.insert binding.1 binding.2)
    (Bindings.empty.insert "self" receiver)

namespace Value

def invoke (classes : ClassTable) (dispatch : Dispatch) (receiver : Value) (name : String)
    (args : List Value) : Exec Value := do
  let address ← Exec.requireObject classes "self" receiver
  let heap := (← Machine.get).heap
  let cls := heap.className classes address
  match heap.methodTaking? classes address name args.length with
  | .none => Machine.fail (.noMethod cls name args.length)
  | .some method => do
    Exec.record (.methodCalled cls name)
    Exec.inScope (callScope receiver method.params args) (method.body.exec classes dispatch)

end Value

namespace Dispatch

def stuck : Dispatch := ⟨fun _ _ _ => Machine.exhaust, fun _ => Machine.exhaust⟩

def within (classes : ClassTable) : Nat → Dispatch
  | 0 => ⟨fun _ _ _ => Machine.exhaust, fun value => value.display classes stuck⟩
  | depth + 1 =>
    ⟨fun receiver name args => receiver.invoke classes (within classes depth) name args,
      fun value => value.display classes (within classes depth)⟩

end Dispatch

end Offside
