import Mathlib.Logic.Relation
import Offside.Proofs.Execution.Discipline
import Offside.Proofs.Execution.Independence
import Offside.Proofs.Grammar.Soundness

/-! What a statement has to do with its scope. The names that it may bind and the names that it may look
up can be read off its nodes. It comes out the same in scopes that agree on these, and binds no other
name. Calls have scopes of their own, and know nothing of the scope that they are made in. -/
namespace Offside

namespace Stmt

def bound? (classes : ClassTable) : Stmt → Option String
  | .assign name _ => some name
  | .define cls => some (classes.nameOf cls)
  | _ => Option.none

def read? (tree : Stmt) : Option String := tree.path?.bind List.head?

def trees (tree : Stmt) : List Stmt := tree :: tree.parts.map Node.tree

def binds (classes : ClassTable) (tree : Stmt) : List String := tree.trees.filterMap (bound? classes)

def mentions (classes : ClassTable) (tree : Stmt) : List String :=
  tree.binds classes ++ tree.trees.filterMap read?

theorem onlyTrees {allows : Stmt → Prop} {tree : Stmt} (all : ∀ part ∈ tree.trees, allows part) :
    tree.Only allows := by
  obtain ⟨here, below⟩ := List.forall_mem_cons.mp all
  exact ⟨here, fun node member => below node.tree (List.mem_map.mpr ⟨node, member, rfl⟩)⟩

theorem Formed.onlyExpressions {role : Role} {tree : Stmt} (formed : tree.Formed role)
    (expression : role = .expression) : tree.Only (Formed .expression) := by
  have here : tree.Formed .expression := expression ▸ formed
  refine ⟨here, ?_⟩
  have leaf : ∀ node ∈ ([] : List Node), Formed .expression node.tree := by simp
  induction formed with
  | path | number | string | bool | none => exact leaf
  | arithmetic _ left right first second | compare _ left right first second =>
    exact List.forall_mem_append.mpr ⟨(onlyNodes _).mpr ⟨left, first expression left⟩,
      (onlyNodes _).mpr ⟨right, second expression right⟩⟩
  | both left right first second | either left right first second =>
    exact List.forall_mem_append.mpr ⟨(onlyNodes _).mpr ⟨left, first expression left⟩,
      (onlyNodes _).mpr ⟨right, second expression right⟩⟩
  | negate operand only | stringify operand only => exact (onlyNodes _).mpr ⟨operand, only expression operand⟩
  | create _ given only =>
    exact allParts.mpr fun arg member =>
      (onlyNodes _).mpr ⟨given arg member, only arg member expression (given arg member)⟩
  | call qualified _ given only =>
    refine List.forall_mem_append.mpr ⟨(onlyNodes _).mpr ⟨.path qualified, leaf⟩, ?_⟩
    exact allParts.mpr fun arg member =>
      (onlyNodes _).mpr ⟨given arg member, only arg member expression (given arg member)⟩
  | _ => cases expression

def Quiet (classes : ClassTable) (tree : Stmt) : Prop := tree.bound? classes = Option.none

theorem Formed.quiet {tree : Stmt} (formed : tree.Formed .expression) (classes : ClassTable) :
    tree.Only (Quiet classes) := by
  refine (formed.onlyExpressions rfl).imp fun expression => ?_
  cases expression <;> rfl

theorem Only.bindsNothing {classes : ClassTable} {tree : Stmt} (only : tree.Only (Quiet classes)) :
    tree.binds classes = [] := by
  refine List.filterMap_eq_nil_iff.mpr (List.forall_mem_cons.mpr ⟨only.here, fun part member => ?_⟩)
  obtain ⟨node, inside, rfl⟩ := List.mem_map.mp member
  exact only.below node inside

end Stmt

namespace Bindings

def AgreeOn (names : List String) (left right : Bindings) : Prop :=
  ∀ name ∈ names, left.get? name = right.get? name

/- Names among these have been bound, one after another, and nothing else has happened. -/
def Rebinds (names : List String) : Bindings → Bindings → Prop :=
  Relation.ReflTransGen fun before after => ∃ name ∈ names, ∃ value, after = before.insert name value

theorem AgreeOn.insert {names : List String} {left right : Bindings} (agree : left.AgreeOn names right)
    (name : String) (value : Value) : (left.insert name value).AgreeOn names (right.insert name value) := by
  intro other member
  rw [getInsert, getInsert, agree other member]

theorem Rebinds.outside {names : List String} {before after : Bindings}
    (rebinds : Rebinds names before after) {name : String} (outside : name ∉ names) :
    after.get? name = before.get? name := by
  induction rebinds with
  | refl => rfl
  | tail _ last ih =>
    obtain ⟨other, member, value, rfl⟩ := last
    have differ : other ≠ name := fun same => outside (same ▸ member)
    rw [getInsertOther _ _ differ, ih]

theorem Rebinds.nothing {before after : Bindings} (rebinds : Rebinds [] before after) :
    after = before := by
  cases rebinds with
  | refl => rfl
  | tail _ last =>
    obtain ⟨_, member, _⟩ := last
    cases member

end Bindings

structure State.AgreeOn (names : List String) (left right : State) : Prop where
  scope : left.scope.AgreeOn names right.scope
  heap : left.heap = right.heap
  sink : left.sink = right.sink
  trace : left.trace = right.trace

namespace Outcome

variable {α : Type}

inductive AgreeOn (names : List String) :
    Outcome RuntimeError State α → Outcome RuntimeError State α → Prop where
  | done (value : α) {after final : State} (agree : after.AgreeOn names final) :
    AgreeOn names (.done value after) (.done value final)
  | failed (error : RuntimeError) {after final : State} (agree : after.AgreeOn names final) :
    AgreeOn names (.failed error after) (.failed error final)
  | exhausted : AgreeOn names .exhausted .exhausted

end Outcome

theorem Exec.defineRun (classes : ClassTable) (cls : ClassId) (state : State) :
    Exec.define classes cls state =
      if state.scope.contains (classes.nameOf cls) then
        .failed (.nameTaken (classes.nameOf cls)) state
      else .done (.cls cls)
        { state with
          scope := state.scope.insert (classes.nameOf cls) (.cls cls)
          trace := state.trace.push (.classDefined (classes.nameOf cls)) } := by
  show (if state.scope.contains (classes.nameOf cls) then Machine.fail _ else _ : Exec Value) state = _
  split <;> rfl

namespace Scope

variable {α β : Type}

def Apart (machine : Exec α) : Prop :=
  ∀ state scope, machine { state with scope := scope } =
    (machine state).mapState fun after => { after with scope := scope }

theorem Apart.kept {machine : Exec α} (apart : Apart machine) {state after : State}
    (ended : (machine state).state? = some after) : after.scope = state.scope := by
  have same : (machine state).state? = _ := congrArg Outcome.state? (apart state state.scope)
  cases ran : machine state with
  | done value final | failed error final =>
    rw [ran] at same ended
    cases ended
    have came : after = { after with scope := state.scope } := Option.some.inj same
    rw [came]
  | exhausted =>
    rw [ran] at ended
    cases ended

theorem apartBind {machine : Exec α} {next : α → Exec β} (first : Apart machine)
    (second : ∀ value, Apart (next value)) : Apart (machine >>= next) := by
  intro state scope
  rw [Machine.bindRun, Machine.bindRun, first state scope]
  cases machine state with
  | done value between => exact second value between scope
  | failed error between => rfl
  | exhausted => rfl

theorem apartSteps (classes : ClassTable) : Steps classes (fun _ => True) Apart where
  pure _ := fun _ _ => rfl
  fail _ := fun _ _ => rfl
  bind := apartBind
  look {_ next} alike each := fun state scope => by
    change next { state with scope := scope } { state with scope := scope } =
      (next state state).mapState _
    have same : next { state with scope := scope } = next state := alike rfl
    rw [same]
    exact each state state scope
  setField _ _ _ := fun _ _ => rfl
  record _ := fun _ _ => rfl
  writeLine text := fun state scope => by
    unfold Exec.writeLine
    dsimp only
    cases state.sink.writeLine text with
    | mk fits sink => cases fits <;> rfl

theorem apartWithin (classes : ClassTable) (depth : Nat) :
    (Dispatch.within classes depth).Keeps Apart :=
  (apartSteps classes).within (fun _ _ => rfl) trivial
    (fun _ _ scope state outer => Exec.inScopeOuter scope outer _ state) depth

structure Ends (bound read : List String) (start : State) (left right : Outcome RuntimeError State α) :
    Prop where
  agree : left.AgreeOn read right
  rebinds : ∀ {after : State}, left.state? = some after → start.scope.Rebinds bound after.scope

theorem endsHere {bound read : List String} {state : State} {left right : Outcome RuntimeError State α}
    (agree : left.AgreeOn read right) (stays : left.state? = some state) :
    Ends bound read state left right := by
  refine ⟨agree, fun ended => ?_⟩
  rw [stays] at ended
  cases ended
  exact .refl

def Confined (bound read : List String) (machine : Exec α) : Prop :=
  ∀ ⦃s t : State⦄, s.AgreeOn read t → Ends bound read s (machine s) (machine t)

theorem confinedApart {bound read : List String} {machine : Exec α} (apart : Apart machine) :
    Confined bound read machine := by
  intro s t agree
  have other : t = { s with scope := t.scope } := by
    cases t
    rw [agree.heap, agree.sink, agree.trace]
  rw [other, apart s t.scope]
  have kept : ∀ {after : State}, (machine s).state? = some after → after.scope = s.scope :=
    fun ended => apart.kept ended
  have still : ∀ {after : State}, (machine s).state? = some after →
      after.AgreeOn read { after with scope := t.scope } :=
    fun ended => ⟨kept ended ▸ agree.scope, rfl, rfl, rfl⟩
  constructor
  · cases ran : machine s with
    | done value after =>
      rw [ran] at still
      exact .done value (still rfl)
    | failed error after =>
      rw [ran] at still
      exact .failed error (still rfl)
    | exhausted => exact .exhausted
  · intro after ended
    rw [kept ended]
    exact .refl

theorem confinedBind {bound read : List String} {machine : Exec α} {next : α → Exec β}
    (first : Confined bound read machine) (second : ∀ value, Confined bound read (next value)) :
    Confined bound read (machine >>= next) := by
  intro s t agree
  obtain ⟨alike, rebinds⟩ := first agree
  rw [Machine.bindRun, Machine.bindRun]
  revert alike rebinds
  generalize machine s = left
  generalize machine t = right
  intro alike rebinds
  cases alike with
  | done value agree =>
    have ends := second value agree
    exact ⟨ends.agree, fun ended => (rebinds rfl).trans (ends.rebinds ended)⟩
  | failed error agree => exact ⟨.failed error agree, rebinds⟩
  | exhausted => exact ⟨.exhausted, fun ended => by cases ended⟩

theorem confinedSteps (classes : ClassTable) (bound read : List String) :
    Steps classes (fun _ => True) (Confined bound read) where
  pure value := confinedApart ((apartSteps classes).pure value)
  fail fair := confinedApart ((apartSteps classes).fail fair)
  bind := confinedBind
  look {_ next} alike each := fun s t agree => by
    change Ends bound read s (next s s) (next t t)
    rw [alike agree.heap]
    exact each t agree
  setField address field value := confinedApart ((apartSteps classes).setField address field value)
  record event := confinedApart ((apartSteps classes).record event)
  writeLine text := confinedApart ((apartSteps classes).writeLine text)

theorem confinedReadPath {classes : ClassTable} {bound read : List String} {path : Path}
    (known : ∀ name ∈ path.head?, name ∈ read) : Confined bound read (Exec.readPath classes path) := by
  intro s t agree
  have same : path.read classes s.scope s.heap = path.read classes t.scope t.heap := by
    cases path with
    | nil => rfl
    | cons name fields =>
      rw [Path.read, Path.read, agree.scope name (known name rfl), agree.heap]
  change Ends bound read s (Machine.ofExcept (path.read classes s.scope s.heap) s)
    (Machine.ofExcept (path.read classes t.scope t.heap) t)
  rw [← same]
  cases path.read classes s.scope s.heap with
  | ok value => exact endsHere (.done value agree) rfl
  | error error => exact endsHere (.failed error agree) rfl

theorem confinedDefine {classes : ClassTable} {bound read : List String} {cls : ClassId}
    (binds : classes.nameOf cls ∈ bound) (known : classes.nameOf cls ∈ read) :
    Confined bound read (Exec.define classes cls) := by
  intro s t agree
  have same : s.scope.contains (classes.nameOf cls) = t.scope.contains (classes.nameOf cls) := by
    unfold Bindings.contains
    rw [agree.scope _ known]
  rw [Exec.defineRun, Exec.defineRun, ← same]
  split
  · exact endsHere (.failed _ agree) rfl
  · refine ⟨.done _ ⟨agree.scope.insert _ _, agree.heap, agree.sink, ?_⟩, fun ended => ?_⟩
    · rw [agree.trace]
    · cases ended
      exact .single ⟨_, binds, _, rfl⟩

structure Lists (classes : ClassTable) (bound read : List String) (tree : Stmt) : Prop where
  binds : ∀ name ∈ tree.bound? classes, name ∈ bound ∧ name ∈ read
  reads : ∀ name ∈ tree.read?, name ∈ read

theorem confinedDiscipline (classes : ClassTable) (depth : Nat) (bound read : List String) :
    Discipline classes (.within classes depth) (Lists classes bound read) (fun _ => True)
      (Confined bound read) where
  toSteps := confinedSteps classes bound read
  bindName {name _} value lists := fun s t agree => by
    refine ⟨.done _ ⟨agree.scope.insert name value, agree.heap, agree.sink, agree.trace⟩, fun ended => ?_⟩
    cases ended
    exact .single ⟨name, (lists.binds name rfl).1, value, rfl⟩
  define lists := confinedDefine (lists.binds _ rfl).1 (lists.binds _ rfl).2
  readPath {tree names} lists path := by
    refine ⟨confinedReadPath fun name first => lists.reads name ?_, trivial⟩
    rw [Stmt.read?, path]
    exact first
  call _ := ⟨trivial, fun value values => confinedApart ((apartWithin classes depth).invoke value _ values)⟩
  operate _ := confinedApart ((apartWithin classes depth).invoke _ _ _)
  shown value := confinedApart ((apartWithin classes depth).display value)
  create {cls _} _ given := by
    have steps := confinedSteps classes bound read
    have created : Apart (Exec.create cls) := fun _ _ => rfl
    have called := fun receiver name args => (apartWithin classes depth).invoke receiver name args
    rw [Stmt.exec]
    refine steps.bind (confinedApart created) fun address => steps.bind given fun values => ?_
    exact steps.bind (confinedApart (called _ _ values)) fun _ => steps.pure _

theorem confinedExec (classes : ClassTable) (depth : Nat) (statement : Stmt) :
    Confined (statement.binds classes) (statement.mentions classes)
      (statement.exec classes (.within classes depth)) := by
  refine (confinedDiscipline classes depth _ _).holdsExec statement (Stmt.onlyTrees fun part inside => ?_)
  have binds : ∀ name ∈ part.bound? classes, name ∈ statement.binds classes :=
    fun name bound => List.mem_filterMap.mpr ⟨part, inside, bound⟩
  constructor
  · exact fun name bound => ⟨binds name bound, List.mem_append_left _ (binds name bound)⟩
  · exact fun name read => List.mem_append_right _ (List.mem_filterMap.mpr ⟨part, inside, read⟩)

theorem rebindsExec {classes : ClassTable} {depth : Nat} {statement : Stmt} {state after : State}
    (ended : (statement.exec classes (.within classes depth) state).state? = some after) :
    state.scope.Rebinds (statement.binds classes) after.scope :=
  (confinedExec classes depth statement ⟨fun _ _ => rfl, rfl, rfl, rfl⟩).rebinds ended

theorem stays {classes : ClassTable} {depth : Nat} {statement : Stmt} {state after : State}
    (quiet : statement.Only (Stmt.Quiet classes))
    (ended : (statement.exec classes (.within classes depth) state).state? = some after) :
    after.scope = state.scope := by
  have bound := rebindsExec ended
  rw [quiet.bindsNothing] at bound
  exact bound.nothing

end Scope

/-- A statement comes out the same in scopes that agree on the names that it mentions, and leaves scopes
that agree on them. Names that it does not bind keep their values. An expression leaves its scope as it
is, and so do the calls that are made from it. -/
theorem execByNames (classes : ClassTable) (depth : Nat) (statement : Stmt) :
    (∀ s t : State, s.AgreeOn (statement.mentions classes) t →
      (statement.exec classes (.within classes depth) s).AgreeOn (statement.mentions classes)
        (statement.exec classes (.within classes depth) t)) ∧
    (∀ state after : State,
      (statement.exec classes (.within classes depth) state).state? = some after →
        ∀ name ∉ statement.binds classes, after.scope.get? name = state.scope.get? name) ∧
    (∀ start rest, Parser.expression start = .done statement rest → ∀ state after : State,
      (statement.exec classes (.within classes depth) state).state? = some after →
        after.scope = state.scope) ∧
    (∀ receiver name args, ∀ state after : State,
      ((Dispatch.within classes depth).invoke receiver name args state).state? = some after →
        after.scope = state.scope) ∧
    ∀ value, ∀ state after : State,
      ((Dispatch.within classes depth).display value state).state? = some after →
        after.scope = state.scope := by
  have confined := Scope.confinedExec classes depth statement
  have calls := Scope.apartWithin classes depth
  refine ⟨fun s t agree => (confined agree).agree, fun state after ended name outside => ?_,
    fun start rest parsed state after ended => ?_, fun receiver name args state after ended => ?_,
    fun value state after ended => ?_⟩
  · exact (Scope.rebindsExec ended).outside outside
  · obtain ⟨tokens, -, derived⟩ := Parser.expressionSound parsed
    exact Scope.stays (derived.formed.quiet classes) ended
  · exact (calls.invoke receiver name args).kept ended
  · exact (calls.display value).kept ended

end Offside
