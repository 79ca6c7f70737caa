import Offside.Proofs.Execution.Signal
import Offside.Proofs.Program.Nodes

/-! Properties that a statement gets from its nodes. A property of computations that goes through the steps
of the machine holds of a statement as soon as each of its nodes is allowed, where a node has to answer
for its own step only: an assignment for the name that it binds, a path for what it reads, a call for
the method. Nothing is asked of the bodies of methods, which are no nodes of the statement. -/
namespace Offside

def RuntimeError.described? : RuntimeError → Option String
  | unbound text | notAnObject text _ => some text
  | _ => none

def Stmt.path? : Stmt → Option Path
  | .path names | .setField names _ _ => some names
  | _ => Option.none

/- A property that sequences keep and that the steps have which do not look at the scope. `Describes` are
the texts that failures may describe something by. -/
structure Steps (classes : ClassTable) (Describes : String → Prop)
    (Holds : {α : Type} → Exec α → Prop) : Prop where
  pure : ∀ {α : Type} (value : α), Holds (Pure.pure value)
  fail : ∀ {α : Type} {error : RuntimeError}, (∀ text ∈ error.described?, Describes text) →
    Holds (Machine.fail error : Exec α)
  bind : ∀ {α β : Type} {machine : Exec α} {next : α → Exec β}, Holds machine →
    (∀ value, Holds (next value)) → Holds (machine >>= next)
  look : ∀ {α : Type} {next : State → Exec α},
    (∀ {s t : State}, s.heap = t.heap → next s = next t) → (∀ state, Holds (next state)) →
    Holds (Machine.get >>= next)
  setField : ∀ address field value, Holds (Exec.setField address field value)
  record : ∀ event, Holds (Exec.record event)
  writeLine : ∀ text, Holds (Exec.writeLine text)

namespace Steps

variable {classes : ClassTable} {Describes : String → Prop} {Holds : {α : Type} → Exec α → Prop}
  (steps : Steps classes Describes Holds) {dispatch : Dispatch}
include steps

theorem failPlain {α : Type} {error : RuntimeError} (plain : error.described? = none) :
    Holds (Machine.fail error : Exec α) :=
  steps.fail (by simp [plain])

theorem except {α : Type} {outcome : Except RuntimeError α}
    (fair : ∀ error, outcome = .error error → ∀ text ∈ error.described?, Describes text) :
    Holds (Machine.ofExcept outcome) := by
  cases outcome with
  | ok value => exact steps.pure value
  | error error => exact steps.fail (fair error rfl)

theorem typeName (value : Value) : Holds (Exec.typeName classes value) := by
  change Holds (Machine.get >>= fun state => Pure.pure (value.typeName classes state.heap))
  exact steps.look (fun same => by rw [same]) fun state => steps.pure _

theorem requireObject {description : String} (fair : Describes description) (value : Value) :
    Holds (Exec.requireObject classes description value) := by
  cases value with
  | object address => exact steps.pure address
  | _ =>
    exact steps.bind (steps.typeName _) fun _ =>
      steps.fail (by simpa [RuntimeError.described?] using fair)

theorem define (got : Holds (Machine.get : Exec State))
    (bound : ∀ name value, Holds (Exec.bindName name value)) (cls : ClassId) :
    Holds (Exec.define classes cls) := by
  refine steps.bind got fun state => ?_
  split
  · exact steps.failPlain rfl
  · refine steps.bind (steps.record _) fun _ => ?_
    exact steps.bind (bound _ _) fun _ => steps.pure _

theorem compare (relation : Relation) (left right : Value) :
    Holds (Exec.compare classes relation left right) := by
  refine steps.look (fun same => by rw [same]) fun state => steps.except fun error failed => ?_
  unfold Relation.decide at failed
  cases decided : relation.holds? left right with
  | some verdict => simp [decided, Except.map] at failed
  | none =>
    simp only [decided, Except.map, Except.error.injEq] at failed
    simp [← failed, RuntimeError.described?]

theorem arithmetic
    (operate : ∀ {heap : Heap} {address} {op : ArithmeticOp} {right},
      (heap.methodTaking? classes address op.methodName 1).isSome = true →
        Holds (dispatch.invoke (.object address) op.methodName [right]))
    (op : ArithmeticOp) (left right : Value) :
    Holds (Exec.arithmetic classes dispatch op left right) := by
  refine steps.look (fun same => by simp only [same]) fun state => ?_
  dsimp only
  split
  · refine steps.except fun error failed => ?_
    unfold ArithmeticOp.apply at failed
    split at failed
    · cases failed
      simp [RuntimeError.described?]
    · split at failed <;> cases failed
      simp [RuntimeError.described?]
  · split
    · exact steps.pure _
    · exact steps.failPlain rfl
  · split
    · exact operate (by assumption)
    · exact steps.failPlain rfl
  · exact steps.failPlain rfl

theorem display {value : Value}
    (spoken : ∀ {heap : Heap}, value.hasStringMethod classes heap = true →
      Holds (dispatch.invoke value Method.stringName []) ∧ ∀ other, Holds (dispatch.display other)) :
    Holds (value.display classes dispatch) := by
  refine steps.look (fun same => by simp only [same]) fun state => ?_
  dsimp only
  split
  · obtain ⟨called, shown⟩ := spoken (by assumption)
    exact steps.bind called shown
  · exact steps.pure _

theorem invoke (self : Describes "self")
    (bodies : ∀ {name id entry}, MethodEntry.find? name (classes.methodsOf id) = some entry →
      ∀ scope, Holds (Exec.inScope scope (entry.method.body.exec classes dispatch)))
    (receiver : Value) (name : String) (args : List Value) :
    Holds (receiver.invoke classes dispatch name args) := by
  refine steps.bind (steps.requireObject self receiver) fun address => ?_
  refine steps.look (fun same => by simp only [same]) fun state => ?_
  dsimp only
  split
  · exact steps.failPlain rfl
  · rename_i method taken
    obtain ⟨id, entry, found, rfl⟩ := methodTakingFind taken
    exact steps.bind (steps.record _) fun _ => bodies found _

end Steps

structure Dispatch.Keeps (Holds : {α : Type} → Exec α → Prop) (dispatch : Dispatch) : Prop where
  invoke : ∀ receiver name args, Holds (dispatch.invoke receiver name args)
  display : ∀ value, Holds (dispatch.display value)

theorem Steps.within {classes : ClassTable} {Describes : String → Prop}
    {Holds : {α : Type} → Exec α → Prop} (steps : Steps classes Describes Holds)
    (exhaust : ∀ {α : Type}, Holds (Machine.exhaust : Exec α)) (self : Describes "self")
    (bodies : ∀ {dispatch : Dispatch} {name id entry}, dispatch.Keeps Holds →
      MethodEntry.find? name (classes.methodsOf id) = some entry →
      ∀ scope, Holds (Exec.inScope scope (entry.method.body.exec classes dispatch)))
    (depth : Nat) : (Dispatch.within classes depth).Keeps Holds := by
  have stuck : Dispatch.stuck.Keeps Holds := ⟨fun _ _ _ => exhaust, fun _ => exhaust⟩
  have shown : ∀ {dispatch : Dispatch}, dispatch.Keeps Holds →
      ∀ value : Value, Holds (value.display classes dispatch) :=
    fun keeps value => steps.display fun _ => ⟨keeps.invoke _ _ _, keeps.display⟩
  induction depth with
  | zero => exact ⟨fun _ _ _ => exhaust, shown stuck⟩
  | succ depth ih => exact ⟨steps.invoke self (bodies ih), shown ih⟩

/- What nodes have to answer for. Only the creation of an object is left as a whole, for its
constructor runs on an object that is known to be of the class. -/
structure Discipline (classes : ClassTable) (dispatch : Dispatch) (Allows : Stmt → Prop)
    (Describes : String → Prop) (Holds : {α : Type} → Exec α → Prop) : Prop
    extends Steps classes Describes Holds where
  bindName : ∀ {name tree} value, Allows (.assign name tree) → Holds (Exec.bindName name value)
  define : ∀ {cls}, Allows (.define cls) → Holds (Exec.define classes cls)
  readPath : ∀ {tree} {names : Path}, Allows tree → tree.path? = some names →
    Holds (Exec.readPath classes names) ∧ Describes names.text
  call : ∀ {receiver method args}, Allows (.call receiver method args) →
    Describes receiver.receiverName ∧ ∀ value values, Holds (dispatch.invoke value method values)
  operate : ∀ {heap : Heap} {address} {op : ArithmeticOp} {right},
    (heap.methodTaking? classes address op.methodName 1).isSome = true →
      Holds (dispatch.invoke (.object address) op.methodName [right])
  shown : ∀ value, Holds (dispatch.display value)
  create : ∀ {cls args}, Allows (.create cls args) → Holds (execValues classes dispatch args) →
    Holds ((Stmt.create cls args).exec classes dispatch)

namespace Discipline

variable {classes : ClassTable} {dispatch : Dispatch} {Allows : Stmt → Prop}
  {Describes : String → Prop} {Holds : {α : Type} → Exec α → Prop}

mutual

theorem holdsExec (rules : Discipline classes dispatch Allows Describes Holds) (tree : Stmt)
    (only : tree.Only Allows) : Holds (tree.exec classes dispatch) := by
  have child : ∀ {part}, part ∈ tree.parts.map Node.tree → part.Only Allows := only.part
  cases tree with
  | assign name value =>
    rw [Stmt.exec]
    refine rules.bind (holdsExec rules value (child (by simp [Stmt.parts]))) fun result => ?_
    exact rules.bind (rules.bindName result only.here) fun _ => rules.pure result
  | setField target field value =>
    rw [Stmt.exec]
    obtain ⟨read, fair⟩ := rules.readPath only.here rfl
    refine rules.bind read fun object => rules.bind (rules.requireObject fair object) fun address => ?_
    refine rules.bind (holdsExec rules value (child (by simp [Stmt.parts]))) fun result => ?_
    exact rules.bind (rules.setField address field result) fun _ => rules.pure result
  | path names =>
    rw [Stmt.exec]
    exact (rules.readPath only.here rfl).1
  | number | string | bool | none =>
    rw [Stmt.exec]
    exact rules.pure _
  | arithmetic op left right =>
    rw [Stmt.exec]
    refine rules.bind (holdsExec rules left (child (by simp [Stmt.parts]))) fun _ => ?_
    refine rules.bind (holdsExec rules right (child (by simp [Stmt.parts]))) fun _ => ?_
    exact rules.arithmetic rules.operate op _ _
  | both left right | either left right =>
    rw [Stmt.exec]
    refine rules.bind (holdsExec rules left (child (by simp [Stmt.parts]))) fun _ => ?_
    exact rules.bind (holdsExec rules right (child (by simp [Stmt.parts]))) fun _ => rules.pure _
  | negate operand =>
    rw [Stmt.exec]
    exact rules.bind (holdsExec rules operand (child (by simp [Stmt.parts]))) fun _ => rules.pure _
  | compare relation left right =>
    rw [Stmt.exec]
    refine rules.bind (holdsExec rules left (child (by simp [Stmt.parts]))) fun _ => ?_
    refine rules.bind (holdsExec rules right (child (by simp [Stmt.parts]))) fun _ => ?_
    exact rules.compare relation _ _
  | block body =>
    rw [Stmt.exec]
    exact holdsBlock rules body fun statement member => child (Stmt.memberAll member)
  | branch condition yes no =>
    rw [Stmt.exec]
    refine rules.bind (holdsExec rules condition (child (by simp [Stmt.parts]))) fun _ => ?_
    split
    · exact holdsExec rules yes (child (by simp [Stmt.parts]))
    · refine holdsElse rules no fun statement same => child ?_
      simp [Stmt.parts, Stmt.partsElse, same]
  | result value =>
    rw [Stmt.exec]
    exact holdsExec rules value (child (by simp [Stmt.parts]))
  | print args =>
    rw [Stmt.exec]
    refine rules.bind (holdsTexts rules args fun arg member => child (Stmt.memberAll member)) ?_
    exact fun _ => rules.bind (rules.writeLine _) fun _ => rules.pure _
  | call receiver method args =>
    rw [Stmt.exec]
    obtain ⟨fair, called⟩ := rules.call only.here
    refine rules.bind (holdsExec rules receiver (child (by simp [Stmt.parts]))) fun value => ?_
    refine rules.bind (rules.requireObject fair value) fun _ => ?_
    have given : ∀ arg ∈ args, arg.Only Allows := by
      intro arg member
      refine child ?_
      rw [Stmt.parts, List.map_append]
      exact List.mem_append_right _ (Stmt.memberAll member)
    exact rules.bind (holdsValues rules args given) fun values => called value values
  | create cls args =>
    exact rules.create only.here
      (holdsValues rules args fun arg member => child (Stmt.memberAll member))
  | stringify value =>
    rw [Stmt.exec]
    refine rules.bind (holdsExec rules value (child (by simp [Stmt.parts]))) fun result => ?_
    exact rules.bind (rules.shown result) fun _ => rules.pure _
  | define cls =>
    rw [Stmt.exec]
    exact rules.define only.here

theorem holdsBlock (rules : Discipline classes dispatch Allows Describes Holds) (body : List Stmt)
    (only : ∀ statement ∈ body, statement.Only Allows) : Holds (execBlock classes dispatch body) := by
  cases body with
  | nil =>
    rw [execBlock]
    exact rules.pure _
  | cons statement rest =>
    obtain ⟨head, tail⟩ := List.forall_mem_cons.mp only
    rw [execBlock]
    refine rules.bind (holdsExec rules statement head) fun value => ?_
    split
    · exact rules.pure value
    · exact holdsBlock rules rest tail

theorem holdsElse (rules : Discipline classes dispatch Allows Describes Holds) (no : Option Stmt)
    (only : ∀ statement, no = some statement → statement.Only Allows) :
    Holds (execElse classes dispatch no) := by
  cases no with
  | none =>
    rw [execElse]
    exact rules.pure _
  | some statement =>
    rw [execElse]
    exact holdsExec rules statement (only statement rfl)

theorem holdsValues (rules : Discipline classes dispatch Allows Describes Holds) (args : List Stmt)
    (only : ∀ arg ∈ args, arg.Only Allows) : Holds (execValues classes dispatch args) := by
  cases args with
  | nil =>
    rw [execValues]
    exact rules.pure _
  | cons arg rest =>
    obtain ⟨head, tail⟩ := List.forall_mem_cons.mp only
    rw [execValues]
    refine rules.bind (holdsExec rules arg head) fun _ => ?_
    exact rules.bind (holdsValues rules rest tail) fun _ => rules.pure _

theorem holdsTexts (rules : Discipline classes dispatch Allows Describes Holds) (args : List Stmt)
    (only : ∀ arg ∈ args, arg.Only Allows) : Holds (execTexts classes dispatch args) := by
  cases args with
  | nil =>
    rw [execTexts]
    exact rules.pure _
  | cons arg rest =>
    obtain ⟨head, tail⟩ := List.forall_mem_cons.mp only
    rw [execTexts]
    refine rules.bind (holdsExec rules arg head) fun value => rules.bind (rules.shown value) fun _ => ?_
    exact rules.bind (holdsTexts rules rest tail) fun _ => rules.pure _

end

end Discipline

end Offside
