import Offside.Proofs.Execution.Simulation

/-! What executions only add to. A relation between an earlier and a later state that every step of the
machine moves along, and that a scope left for another is come back to along, is moved along by every
statement, also when it fails. That objects keep their class and the names of their fields, and a
scope the names of its variables, is such a relation. -/
namespace Offside

structure Transition where
  Moves : State → State → Prop
  refl : ∀ s, Moves s s
  trans : ∀ {s t u}, Moves s t → Moves t u → Moves s u
  bindName : ∀ s name value, Moves s { s with scope := s.scope.insert name value }
  setField : ∀ s address field value,
    Moves s { s with heap := s.heap.setField address field value }
  create : ∀ s cls, Moves s { s with heap := s.heap.create cls }
  record : ∀ s event, Moves s { s with trace := s.trace.push event }
  writeLine : ∀ s text, Moves s { s with sink := (s.sink.writeLine text).2 }
  inScope : ∀ {s t} {scope : Bindings}, Moves { s with scope := scope } t →
    Moves s { t with scope := s.scope }

namespace Transition

variable (moves : Transition) {α β : Type}

def Ends (start : State) (R : α → Prop) : Outcome RuntimeError State α → Prop
  | .done value after => moves.Moves start after ∧ R value
  | .failed _ after => moves.Moves start after
  | .exhausted => True

def Along (R : α → Prop) (machine : Exec α) : Prop := ∀ start, moves.Ends start R (machine start)

variable {moves}

theorem Ends.later {start between : State} {R : α → Prop} {outcome : Outcome RuntimeError State α}
    (moved : moves.Moves start between) (ends : moves.Ends between R outcome) :
    moves.Ends start R outcome := by
  cases outcome with
  | done value after => exact ⟨moves.trans moved ends.1, ends.2⟩
  | failed error after => exact moves.trans moved ends
  | exhausted => trivial

theorem Ends.moved {start after : State} {R : α → Prop} {outcome : Outcome RuntimeError State α}
    (ends : moves.Ends start R outcome) (ended : outcome.state? = some after) :
    moves.Moves start after := by
  cases outcome with
  | done value final =>
    cases ended
    exact ends.1
  | failed error final =>
    cases ended
    exact ends
  | exhausted => cases ended

theorem alongBind {R : α → Prop} {S : β → Prop} {machine : Exec α} {next : α → Exec β}
    (first : moves.Along R machine) (second : ∀ {value}, R value → moves.Along S (next value)) :
    moves.Along S (machine >>= next) := by
  intro start
  have ends := first start
  rw [Machine.bindRun]
  cases ran : machine start with
  | done value between =>
    rw [ran] at ends
    exact (second ends.2 between).later ends.1
  | failed error between =>
    rw [ran] at ends
    exact ends
  | exhausted => trivial

theorem alongInScope {R : α → Prop} {body : Exec α} (scope : Bindings) (along : moves.Along R body) :
    moves.Along R (Exec.inScope scope body) := by
  intro start
  have ends := along { start with scope := scope }
  unfold Exec.inScope
  cases ran : body { start with scope := scope } with
  | done value after =>
    rw [ran] at ends
    exact ⟨moves.inScope ends.1, ends.2⟩
  | failed error after =>
    rw [ran] at ends
    exact moves.inScope ends
  | exhausted => trivial

theorem alongWriteLine {R : Unit → Prop} (related : R ()) (text : String) :
    moves.Along R (Exec.writeLine text) := by
  intro start
  have moved := moves.writeLine start text
  unfold Exec.writeLine
  cases written : start.sink.writeLine text with
  | mk fits sink =>
    rw [written] at moved
    cases fits with
    | true => exact ⟨moved, related⟩
    | false => exact moved

variable (moves)

def simulation (classes : ClassTable) : Simulation classes where
  World := PUnit
  Later _ _ := True
  Same _ := Eq
  View _ := Eq
  Run w R machine _ := moves.Along (fun a => ∃ b, R w a b) machine
  sameLater _ same := same
  samePlain _ := rfl
  sameAlike := by
    rintro w left _ rfl
    exact left.alikeSelf
  viewScope := by
    rintro w s _ rfl
    exact .refl s.scope
  viewField := by
    rintro w s _ left _ rfl same name
    cases same
    cases s.heap.field? left name with
    | none => exact .none
    | some value => exact .some rfl
  viewClass := by
    rintro w s _ left _ rfl same
    cases same
    rfl
  runPure related := fun start => ⟨moves.refl start, _, related⟩
  runFail _ := fun start => moves.refl start
  runExhaust := fun _ => trivial
  runBind first second := alongBind first fun ⟨_, related⟩ => second trivial related
  runGet := fun start => ⟨moves.refl start, start, rfl⟩
  runBindName _ := fun start => ⟨moves.bindName start _ _, (), trivial⟩
  runSetField _ _ := fun start => ⟨moves.setField start _ _ _, (), trivial⟩
  runCreate cls := fun start => ⟨moves.create start cls, start.heap.fresh, rfl⟩
  runRecord event := fun start => ⟨moves.record start event, (), trivial⟩
  runWriteLine text := alongWriteLine ⟨(), trivial⟩ text
  runInScope _ along := alongInScope _ along
  runPlainText _ _ _ := fun start => ⟨moves.refl start, _, rfl⟩

theorem agree (classes : ClassTable) (depth : Nat) :
    (moves.simulation classes).Agree (.within classes depth) (.within classes depth) :=
  (moves.simulation classes).withinAgree depth

theorem movesExec (classes : ClassTable) (depth : Nat) (statement : Stmt) {state after : State}
    (ended : (statement.exec classes (.within classes depth) state).state? = some after) :
    moves.Moves state after := by
  have ends := (moves.simulation classes).runExec (moves.agree classes depth) statement () state
  exact Ends.moved ends ended

theorem movesValues {classes : ClassTable} {depth : Nat} {args : List Stmt} {values : List Value}
    {state after : State}
    (ran : execValues classes (.within classes depth) args state = .done values after) :
    moves.Moves state after := by
  have ends := (moves.simulation classes).runValues (moves.agree classes depth) args () state
  rw [ran] at ends
  exact ends.1

theorem movesInvoke {classes : ClassTable} {depth : Nat} {receiver result : Value} {name : String}
    {args : List Value} {state after : State}
    (ran : (Dispatch.within classes depth).invoke receiver name args state = .done result after) :
    moves.Moves state after := by
  have same : List.Forall₂ Eq args args := List.forall₂_refl args
  have ends := (moves.agree classes depth).invoke (w := ()) name (Eq.refl receiver) same state
  rw [ran] at ends
  exact ends.1

end Transition

structure Object.Becomes (before after : Object) : Prop where
  cls : after.cls = before.cls
  fields : ∀ {name}, before.fields.contains name = true → after.fields.contains name = true

namespace Heap

def Grows (before after : Heap) : Prop :=
  ∀ ⦃address object⦄, before.get? address = some object →
    ∃ later, after.get? address = some later ∧ object.Becomes later

theorem Grows.refl (heap : Heap) : heap.Grows heap :=
  fun _ _ found => ⟨_, found, rfl, fun named => named⟩

theorem Grows.trans {before between after : Heap} (first : before.Grows between)
    (second : between.Grows after) : before.Grows after := by
  intro address object found
  obtain ⟨middle, there, became⟩ := first found
  obtain ⟨last, still, becomes⟩ := second there
  exact ⟨last, still, becomes.cls.trans became.cls, fun named => becomes.fields (became.fields named)⟩

end Heap

theorem Bindings.containsInsert {bindings : Bindings} {name : String} (key : String) (value : Value)
    (named : bindings.contains name = true) : (bindings.insert key value).contains name = true := by
  unfold contains at named ⊢
  rw [getInsert]
  split
  · rfl
  · exact named

namespace Heap

theorem growsSetField (heap : Heap) (address : Address) (field : String) (value : Value) :
    heap.Grows (heap.setField address field value) := by
  intro other object found
  rw [getSetField, found]
  split
  · exact ⟨_, rfl, rfl, fun named => Bindings.containsInsert field value named⟩
  · exact ⟨_, rfl, rfl, fun named => named⟩

theorem growsCreate (heap : Heap) (cls : ClassId) : heap.Grows (heap.create cls) := by
  intro address object found
  have old : address ≠ heap.fresh := by
    rintro rfl
    simp [get?, fresh, size] at found
  refine ⟨object, ?_, rfl, fun named => named⟩
  rw [getCreate, if_neg old, found]

end Heap

structure State.Grows (before after : State) : Prop where
  heap : before.heap.Grows after.heap
  names : ∀ {name}, before.scope.contains name = true → after.scope.contains name = true

def growth : Transition where
  Moves := State.Grows
  refl s := ⟨.refl s.heap, fun named => named⟩
  trans first second := ⟨first.heap.trans second.heap, fun named => second.names (first.names named)⟩
  bindName s name value := ⟨.refl s.heap, fun named => Bindings.containsInsert name value named⟩
  setField s address field value :=
    ⟨s.heap.growsSetField address field value, fun named => named⟩
  create s cls := ⟨s.heap.growsCreate cls, fun named => named⟩
  record s _ := ⟨.refl s.heap, fun named => named⟩
  writeLine s _ := ⟨.refl s.heap, fun named => named⟩
  -- the scope that is come back to is the one that was left
  inScope inside := ⟨inside.heap, fun named => named⟩

end Offside
