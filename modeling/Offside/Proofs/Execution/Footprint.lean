import Offside.Proofs.Execution.Invariant

/-! The footprint of a statement. It gets hold of what its scope reaches and of what it creates, so it
changes no other object, whether it succeeds or fails, and it returns nothing else. -/
namespace Offside

inductive Reaches (scope : Bindings) (heap : Heap) : Value → Prop where
  | bound {name : String} {value : Value} (named : scope.get? name = some value) :
      Reaches scope heap value
  | field {address : Address} {name : String} {value : Value}
      (owner : Reaches scope heap (.object address))
      (held : heap.field? address name = some value) : Reaches scope heap value

/-- Made between two heaps. Values without identity are made wherever they come up. -/
def Value.IsNew (before after : Heap) : Value → Prop
  | .object address => before.size ≤ address ∧ address < after.size
  | _ => True

namespace Heap

theorem fieldSetField {heap : Heap} {address other : Address} {name key : String}
    {value found : Value} (held : (heap.setField address name value).field? other key = some found) :
    found = value ∨ heap.field? other key = some found := by
  unfold field? at held ⊢
  by_cases same : address = other
  · rw [getSetField, if_pos same] at held
    cases present : heap.get? other with
    | none =>
      rw [present] at held
      cases held
    | some object =>
      rw [present] at held
      simp only [Option.map_some, Bindings.getInsert] at held
      split at held
      · cases held
        exact .inl rfl
      · exact .inr held
  · rw [getSetField, if_neg same] at held
    exact .inr held

theorem fieldCreate {heap : Heap} {cls : ClassId} {other : Address} {key : String} {found : Value}
    (held : (heap.create cls).field? other key = some found) :
    other ≠ heap.fresh ∧ heap.field? other key = some found := by
  unfold field? at held ⊢
  by_cases same : other = heap.fresh
  · rw [getCreate, if_pos same] at held
    cases held
  · rw [getCreate, if_neg same] at held
    exact ⟨same, held⟩

end Heap

namespace Footprint

variable (start : State)

/- Reached at the start, or made since. The heap has no more objects than `size`. -/
def Owned (size : Nat) : Value → Prop
  | .object address => Reaches start.scope start.heap (.object address) ∨
      start.heap.size ≤ address ∧ address < size
  | _ => True

structure Holds (size : Nat) (state : State) : Prop where
  full : state.heap.size = size
  apart : ∀ {address}, address < start.heap.size →
    ¬ Reaches start.scope start.heap (.object address) →
    state.heap.get? address = start.heap.get? address
  scope : ∀ {name value}, state.scope.get? name = some value → Owned start size value
  fields : ∀ {address field value}, Owned start size (.object address) →
    state.heap.field? address field = some value → Owned start size value
  grown : start.heap.size ≤ size

variable {start}

theorem ownedLater {size after : Nat} {value : Value} (later : size ≤ after)
    (owned : Owned start size value) : Owned start after value := by
  cases value with
  | object address =>
    rcases owned with reached | ⟨made, bound⟩
    · exact .inl reached
    · exact .inr ⟨made, Nat.lt_of_lt_of_le bound later⟩
  | _ => trivial

theorem ownedReached {size : Nat} {value : Value} (reached : Reaches start.scope start.heap value) :
    Owned start size value := by
  cases value with
  | object address => exact .inl reached
  | _ => trivial

theorem holdsField {size : Nat} {state : State} {address : Address} {value : Value} (field : String)
    (holds : Holds start size state) (owned : Owned start size (.object address))
    (given : Owned start size value) :
    Holds start size { state with heap := state.heap.setField address field value } where
  full := by rw [Heap.sizeSetField, holds.full]
  scope := holds.scope
  grown := holds.grown
  apart := by
    intro other old unreached
    have differ : address ≠ other := by
      rintro rfl
      rcases owned with reached | ⟨made, -⟩
      · exact unreached reached
      · omega
    rw [Heap.getSetField, if_neg differ]
    exact holds.apart old unreached
  fields := by
    intro other name found own held
    rcases Heap.fieldSetField held with rfl | before
    · exact given
    · exact holds.fields own before

theorem holdsCreate {size : Nat} {state : State} (cls : ClassId) (holds : Holds start size state) :
    Holds start (size + 1) { state with heap := state.heap.create cls } where
  full := by rw [Heap.sizeCreate, holds.full]
  scope bound := ownedLater (Nat.le_succ size) (holds.scope bound)
  grown := Nat.le_succ_of_le holds.grown
  apart := by
    intro other old unreached
    have grown := holds.grown
    have differ : other ≠ state.heap.fresh := by
      rw [Heap.fresh, holds.full]
      omega
    rw [Heap.getCreate, if_neg differ]
    exact holds.apart old unreached
  fields := by
    intro other name found own held
    -- the new object has no fields, so the owner is an old one
    obtain ⟨differ, before⟩ := Heap.fieldCreate held
    rw [Heap.fresh, holds.full] at differ
    have own : Owned start size (.object other) := by
      rcases own with reached | ⟨made, bound⟩
      · exact .inl reached
      · exact .inr ⟨made, Nat.lt_of_le_of_ne (Nat.le_of_lt_succ bound) differ⟩
    exact ownedLater (Nat.le_succ size) (holds.fields own before)

variable (start)

def invariant : Invariant where
  World := Nat
  Later := Nat.le
  Owned := Owned start
  Holds := Holds start
  laterRefl := Nat.le_refl
  laterTrans := Nat.le_trans
  ownedLater := ownedLater
  ownedPlain := by
    intro size value plain
    cases value with
    | object address => cases plain
    | _ => trivial
  scopeOwned holds bound := holds.scope bound
  fieldOwned holds owned held := holds.fields owned held
  keepsScope holds owned := ⟨holds.full, holds.apart, owned, holds.fields, holds.grown⟩
  keepsField field holds owned given := holdsField field holds owned given
  keepsCreate := by
    intro size state cls holds
    refine ⟨size + 1, Nat.le_succ size, .inr ?_, holdsCreate cls holds⟩
    rw [Heap.fresh, holds.full]
    exact ⟨holds.grown, Nat.lt_succ_self size⟩
  keepsOutput _ _ holds := ⟨holds.full, holds.apart, holds.scope, holds.fields, holds.grown⟩

theorem holdsStart : Holds start start.heap.size start where
  full := rfl
  apart _ _ := rfl
  scope bound := ownedReached (.bound bound)
  grown := Nat.le_refl _
  fields := by
    intro address field value owned held
    rcases owned with reached | ⟨made, bound⟩
    · exact ownedReached (.field reached held)
    · exact absurd bound (Nat.not_lt.mpr made)

theorem returned {size : Nat} {value : Value} {after : State} (holds : Holds start size after)
    (owned : Owned start size value) :
    value = .none ∨ Reaches start.scope start.heap value ∨ value.IsNew start.heap after.heap := by
  cases value with
  | object address =>
    rcases owned with reached | made
    · exact .inr (.inl reached)
    · exact .inr (.inr (by rw [← holds.full] at made; exact made))
  | _ => exact .inr (.inr trivial)

end Footprint

theorem execFootprint (classes : ClassTable) (depth : Nat) (statement : Stmt) (state after : State)
    (ended : (statement.exec classes (.within classes depth) state).state? = some after) :
    (∀ address, address < state.heap.size → ¬ Reaches state.scope state.heap (.object address) →
      after.heap.get? address = state.heap.get? address) ∧
    ∀ value, statement.exec classes (.within classes depth) state = .done value after →
      value = .none ∨ Reaches state.scope state.heap value ∨
        value.IsNew state.heap after.heap := by
  have ends := (Footprint.invariant state).keepsExec classes depth statement state.heap.size state
    (Footprint.holdsStart state)
  cases ran : statement.exec classes (.within classes depth) state with
  | done value final =>
    rw [ran] at ends ended
    cases ended
    obtain ⟨size, -, holds, owned⟩ := ends
    refine ⟨fun address old unreached => holds.apart old unreached, fun result same => ?_⟩
    cases same
    exact Footprint.returned state holds owned
  | failed error final =>
    rw [ran] at ends ended
    cases ended
    obtain ⟨size, -, holds⟩ := ends
    exact ⟨fun address old unreached => holds.apart old unreached, fun result same => by cases same⟩
  | exhausted =>
    rw [ran] at ended
    cases ended

def twoObjects : State :=
  ⟨Bindings.empty.insert "x" (.object 0), (Heap.empty.create 0).create 0, .unlimited, .empty⟩

theorem twoObjectsReach {value : Value} (reached : Reaches twoObjects.scope twoObjects.heap value) :
    value = .object 0 := by
  induction reached with
  | bound named =>
    rw [twoObjects, Bindings.getInsert] at named
    split at named <;> cases named
    rfl
  | field _ held first =>
    cases first
    cases held

theorem execFootprintNameless :
    ∃ after, ((Stmt.setField ["x"] "f" (.number 5)).exec .empty (.within .empty 0)
        twoObjects).state? = some after ∧
      after.heap.get? 0 ≠ twoObjects.heap.get? 0 ∧ after.heap.get? 1 = twoObjects.heap.get? 1 := by
  refine ⟨_, rfl, by decide, ?_⟩
  refine (execFootprint .empty 0 (.setField ["x"] "f" (.number 5)) twoObjects _ rfl).1 1 (by decide) ?_
  intro reached
  cases twoObjectsReach reached

end Offside
