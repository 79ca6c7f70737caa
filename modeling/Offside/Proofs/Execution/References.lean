import Offside.Proofs.Execution.Footprint
import Offside.Proofs.Execution.Growth

/-! References never dangle. Where every variable and every field refers to something that is there, a
statement leaves it so and returns something that is there, whether it succeeds or fails. What was
there before is there still and is what it was: plain values are themselves, objects have their class
and all their fields. -/
namespace Offside

inductive Nature where
  | plain (value : Value)
  | object (cls : ClassId)
  deriving DecidableEq, Repr

namespace Value

def nature? (heap : Heap) : Value → Option Nature
  | .object address => (heap.get? address).map fun object => .object object.cls
  | value => some (.plain value)

def Allocated (heap : Heap) (value : Value) : Prop := (value.nature? heap).isSome = true

theorem allocatedObject {heap : Heap} {address : Address} :
    Allocated heap (.object address) ↔ address < heap.size := by
  simp [Allocated, nature?, Heap.get?, Heap.size]

theorem natureGrows {before after : Heap} {value : Value} (grows : before.Grows after)
    (allocated : value.Allocated before) : value.nature? after = value.nature? before := by
  cases value with
  | object address =>
    cases found : before.get? address with
    | none => simp [Allocated, nature?, found] at allocated
    | some object =>
      obtain ⟨later, there, becomes⟩ := grows found
      simp [nature?, found, there, becomes.cls]
  | _ => rfl

end Value

structure State.Referring (state : State) : Prop where
  scope : ∀ {name value}, state.scope.get? name = some value → value.Allocated state.heap
  fields : ∀ {address field value}, state.heap.field? address field = some value →
    value.Allocated state.heap

namespace References

def Owned (size : Nat) : Value → Prop
  | .object address => address < size
  | _ => True

structure Holds (size : Nat) (state : State) : Prop where
  full : state.heap.size = size
  referring : state.Referring

theorem ownedAllocated {heap : Heap} {value : Value} :
    Owned heap.size value ↔ value.Allocated heap := by
  cases value with
  | object address => exact Value.allocatedObject.symm
  | _ => exact ⟨fun _ => rfl, fun _ => trivial⟩

theorem Owned.later {size after : Nat} {value : Value} (later : size ≤ after)
    (owned : Owned size value) : Owned after value := by
  cases value with
  | object address => exact Nat.lt_of_lt_of_le owned later
  | _ => trivial

theorem Holds.owned {size : Nat} {state : State} {value : Value} (holds : Holds size state) :
    Owned size value ↔ value.Allocated state.heap := by
  rw [← holds.full]
  exact ownedAllocated

def invariant : Invariant where
  World := Nat
  Later := Nat.le
  Owned := Owned
  Holds := Holds
  laterRefl := Nat.le_refl
  laterTrans := Nat.le_trans
  ownedLater := .later
  ownedPlain := by
    intro size value plain
    cases value with
    | object address => cases plain
    | _ => trivial
  scopeOwned holds bound := holds.owned.mpr (holds.referring.scope bound)
  fieldOwned holds _ held := holds.owned.mpr (holds.referring.fields held)
  keepsScope holds owned :=
    ⟨holds.full, fun bound => holds.owned.mp (owned bound), holds.referring.fields⟩
  keepsField := by
    intro size state address value field holds _ given
    have full : (state.heap.setField address field value).size = size := by
      rw [Heap.sizeSetField, holds.full]
    have kept : ∀ {found : Value}, Owned size found →
        found.Allocated (state.heap.setField address field value) := by
      intro found owned
      rw [← full] at owned
      exact ownedAllocated.mp owned
    refine ⟨full, fun bound => kept (holds.owned.mpr (holds.referring.scope bound)), ?_⟩
    intro other name found held
    rcases Heap.fieldSetField held with rfl | before
    · exact kept given
    · exact kept (holds.owned.mpr (holds.referring.fields before))
  keepsCreate := by
    intro size state cls holds
    have full : (state.heap.create cls).size = size + 1 := by rw [Heap.sizeCreate, holds.full]
    have kept : ∀ {found : Value}, found.Allocated state.heap →
        found.Allocated (state.heap.create cls) := by
      intro found allocated
      rw [Value.Allocated, Value.natureGrows (state.heap.growsCreate cls) allocated]
      exact allocated
    refine ⟨size + 1, Nat.le_succ size, ?_, full, fun bound => kept (holds.referring.scope bound), ?_⟩
    · rw [← holds.full]
      exact Nat.lt_succ_self _
    · intro other name found held
      exact kept (holds.referring.fields (Heap.fieldCreate held).2)
  keepsOutput _ _ holds := ⟨holds.full, holds.referring.scope, holds.referring.fields⟩

theorem holdsEnded {classes : ClassTable} {depth : Nat} {statement : Stmt} {state after : State}
    (referring : state.Referring)
    (ended : (statement.exec classes (.within classes depth) state).state? = some after) :
    after.Referring ∧ ∀ value,
      statement.exec classes (.within classes depth) state = .done value after →
        value.Allocated after.heap := by
  have ends := invariant.keepsExec classes depth statement state.heap.size state ⟨rfl, referring⟩
  cases ran : statement.exec classes (.within classes depth) state with
  | done value final =>
    rw [ran] at ends ended
    cases ended
    obtain ⟨size, -, holds, owned⟩ := ends
    refine ⟨holds.referring, fun result same => ?_⟩
    cases same
    exact holds.owned.mp owned
  | failed error final =>
    rw [ran] at ends ended
    cases ended
    obtain ⟨size, -, holds⟩ := ends
    exact ⟨holds.referring, fun result same => by cases same⟩
  | exhausted =>
    rw [ran] at ended
    cases ended

/- The object is there before its arguments are evaluated, and what the constructor returns is
dropped. -/
theorem createdFresh {classes : ClassTable} {depth : Nat} {cls : ClassId} {args : List Stmt}
    {state after : State} {value : Value}
    (ran : (Stmt.create cls args).exec classes (.within classes depth) state = .done value after) :
    ∃ address object, value = .object address ∧ state.heap.get? address = none ∧
      after.heap.get? address = some object ∧ object.cls = cls := by
  rw [Stmt.exec] at ran
  obtain ⟨address, started, made, ran⟩ := Machine.bindDone.mp ran
  obtain ⟨values, evaluated, given, ran⟩ := Machine.bindDone.mp ran
  obtain ⟨_, called, invoked, finished⟩ := Machine.bindDone.mp ran
  cases made
  cases finished
  have fresh : state.heap.get? state.heap.fresh = none := by
    simp [Heap.get?, Heap.fresh, Heap.size]
  have there : (state.heap.create cls).get? state.heap.fresh = some ⟨cls, .empty⟩ := by
    rw [Heap.getCreate, if_pos rfl]
  have grows := growth.trans (growth.movesValues given) (growth.movesInvoke invoked)
  obtain ⟨object, still, becomes⟩ := grows.heap there
  exact ⟨_, object, rfl, fresh, still, becomes.cls⟩

end References

/-- A statement leaves references as sound as it found them, changes nothing about what a value is,
takes away no field and no variable, and creates new objects. -/
theorem execKeepsReferences (classes : ClassTable) (depth : Nat) (statement : Stmt)
    (state after : State) (referring : state.Referring)
    (ended : (statement.exec classes (.within classes depth) state).state? = some after) :
    after.Referring ∧
    (∀ value, statement.exec classes (.within classes depth) state = .done value after →
      value.Allocated after.heap) ∧
    (∀ value : Value, value.Allocated state.heap → value.nature? after.heap = value.nature? state.heap) ∧
    (∀ address object, state.heap.get? address = some object → ∃ later,
      after.heap.get? address = some later ∧ later.cls = object.cls ∧
        ∀ name, object.fields.contains name = true → later.fields.contains name = true) ∧
    (∀ name, state.scope.contains name = true → after.scope.contains name = true) ∧
    ∀ cls args value, statement = .create cls args →
      statement.exec classes (.within classes depth) state = .done value after →
      ∃ address object, value = .object address ∧ state.heap.get? address = none ∧
        after.heap.get? address = some object ∧ object.cls = cls := by
  obtain ⟨still, returned⟩ := References.holdsEnded referring ended
  have grows := growth.movesExec classes depth statement ended
  refine ⟨still, returned, fun value => Value.natureGrows grows.heap, ?_, fun name => grows.names, ?_⟩
  · intro address object found
    obtain ⟨later, there, becomes⟩ := grows.heap found
    exact ⟨later, there, becomes.cls, fun name => becomes.fields⟩
  · rintro cls args value rfl ran
    exact References.createdFresh ran

def boxes : ClassTable := ClassTable.empty.declare "Box" none
  [⟨"__init__", ["content"], .block [.setField ["self"] "content" (.path ["content"]),
    .result (.path ["content"])]⟩]

def oneBox : State :=
  ⟨Bindings.empty.insert "box" (.object 0), (Heap.empty.create 0).setField 0 "content" (.object 0),
    .unlimited, .empty⟩

theorem oneBoxReferring : oneBox.Referring := by
  constructor
  · intro name value bound
    rw [oneBox, Bindings.getInsert] at bound
    split at bound <;> cases bound
    rfl
  · intro address field value held
    rcases Heap.fieldSetField held with rfl | before
    · rfl
    · cases (Heap.fieldCreate before).2

theorem execKeepsReferencesBoxed : ∃ after,
    ((Stmt.create 0 [.path ["box"]]).exec boxes (.within boxes 1) oneBox) =
      .done (.object 1) after ∧
    after.Referring ∧ (Value.object 0).nature? after.heap = some (.object 0) ∧
    after.heap.field? 1 "content" = some (.object 0) ∧
    ∃ object, after.heap.get? 1 = some object ∧ object.cls = 0 := by
  obtain ⟨after, ran⟩ : ∃ after,
      ((Stmt.create 0 [.path ["box"]]).exec boxes (.within boxes 1) oneBox) =
        .done (.object 1) after := ⟨_, rfl⟩
  have ended : ((Stmt.create 0 [.path ["box"]]).exec boxes (.within boxes 1) oneBox).state? =
      some after := by rw [ran]; rfl
  obtain ⟨still, -, natures, -, -, created⟩ :=
    execKeepsReferences boxes 1 (.create 0 [.path ["box"]]) oneBox after oneBoxReferring ended
  obtain ⟨address, object, same, -, found, cls⟩ := created 0 [.path ["box"]] (.object 1) rfl ran
  cases same
  refine ⟨after, ran, still, ?_, ?_, object, found, cls⟩
  · rw [natures (.object 0) rfl]
    rfl
  · cases ran
    rfl

end Offside
