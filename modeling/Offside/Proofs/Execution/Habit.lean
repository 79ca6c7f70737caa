import Offside.Proofs.Execution.Discipline

/-! Properties that every computation of the language has. Here nothing is asked of the nodes: the property
is one of each step of the machine, and sequences and scopes keep it. Every statement has it then, at
every depth of calls, and so has every run. -/
namespace Offside

/- A step that looks at the state looks at the scope and the heap. -/
structure Habit (Holds : {α : Type} → Exec α → Prop) : Prop where
  pure : ∀ {α : Type} (value : α), Holds (Pure.pure value)
  fail : ∀ {α : Type} (error : RuntimeError), Holds (Machine.fail error : Exec α)
  exhaust : ∀ {α : Type}, Holds (Machine.exhaust : Exec α)
  bind : ∀ {α β : Type} {machine : Exec α} {next : α → Exec β}, Holds machine →
    (∀ value, Holds (next value)) → Holds (machine >>= next)
  look : ∀ {α : Type} {next : State → Exec α},
    (∀ {s t : State}, s.scope = t.scope → s.heap = t.heap → next s = next t) →
    (∀ state, Holds (next state)) → Holds (Machine.get >>= next)
  bindName : ∀ name value, Holds (Exec.bindName name value)
  setField : ∀ address field value, Holds (Exec.setField address field value)
  create : ∀ cls, Holds (Exec.create cls)
  record : ∀ event, Holds (Exec.record event)
  writeLine : ∀ text, Holds (Exec.writeLine text)
  inScope : ∀ {α : Type} (scope : Bindings) {body : Exec α}, Holds body →
    Holds (Exec.inScope scope body)

namespace Habit

variable {Holds : {α : Type} → Exec α → Prop} (habit : Habit Holds) {classes : ClassTable}
  {dispatch : Dispatch}
include habit

theorem steps (classes : ClassTable) : Steps classes (fun _ => True) Holds where
  pure := habit.pure
  fail _ := habit.fail _
  bind := habit.bind
  look alike each := habit.look (fun _ same => alike same) each
  setField := habit.setField
  record := habit.record
  writeLine := habit.writeLine

theorem readPath (path : Path) : Holds (Exec.readPath classes path) := by
  refine habit.look (fun scope heap => by rw [scope, heap]) fun state => ?_
  exact (habit.steps classes).except fun _ _ _ _ => trivial

theorem define (cls : ClassId) : Holds (Exec.define classes cls) := by
  refine habit.look (fun scope _ => by rw [scope]) fun state => ?_
  split
  · exact habit.fail _
  · refine habit.bind (habit.record _) fun _ => ?_
    exact habit.bind (habit.bindName _ _) fun _ => habit.pure _

theorem discipline (keeps : dispatch.Keeps Holds) :
    Discipline classes dispatch (fun _ => True) (fun _ => True) Holds where
  toSteps := habit.steps classes
  bindName value _ := habit.bindName _ value
  define _ := habit.define _
  readPath _ _ := ⟨habit.readPath _, trivial⟩
  call _ := ⟨trivial, fun value values => keeps.invoke value _ values⟩
  operate _ := keeps.invoke _ _ _
  shown := keeps.display
  create _ given := by
    rw [Stmt.exec]
    refine habit.bind (habit.create _) fun _ => habit.bind given fun _ => ?_
    exact habit.bind (keeps.invoke _ _ _) fun _ => habit.pure _

theorem exec (keeps : dispatch.Keeps Holds) (statement : Stmt) :
    Holds (statement.exec classes dispatch) :=
  (habit.discipline keeps).holdsExec statement ⟨trivial, fun _ _ => trivial⟩

theorem block (keeps : dispatch.Keeps Holds) (body : List Stmt) :
    Holds (execBlock classes dispatch body) :=
  (habit.discipline keeps).holdsBlock body fun _ _ => ⟨trivial, fun _ _ => trivial⟩

theorem within (classes : ClassTable) (depth : Nat) : (Dispatch.within classes depth).Keeps Holds :=
  (habit.steps classes).within habit.exhaust trivial
    (fun keeps _ scope => habit.inScope scope (habit.exec keeps _)) depth

theorem run (program : Program) (depth : Nat) : Holds (program.run depth) := by
  refine habit.bind (habit.record _) fun _ => habit.inScope _ ?_
  refine habit.bind (habit.block (habit.within program.classes depth) _) fun _ => ?_
  exact habit.look (fun scope _ => by rw [scope]) fun state => habit.record _

end Habit

end Offside
