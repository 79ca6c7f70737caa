import Offside.Proofs.Execution.Simulation

/-! Invariants of an execution. The values that a program can get hold of are owned, and what it does
to the state it does with owned values only: it binds them to names, sets them as fields of owned
objects, and owns the objects that it creates. Whatever these steps keep, every statement keeps,
also when it fails. -/
namespace Offside

/- The world grows: objects are created, and what is owned stays owned. -/
structure Invariant where
  World : Type
  Later : World → World → Prop
  Owned : World → Value → Prop
  Holds : World → State → Prop
  laterRefl : ∀ w, Later w w
  laterTrans : ∀ {w between after}, Later w between → Later between after → Later w after
  ownedLater : ∀ {w after value}, Later w after → Owned w value → Owned after value
  ownedPlain : ∀ {w value}, value.isPlain = true → Owned w value
  scopeOwned : ∀ {w s name value}, Holds w s → s.scope.get? name = some value → Owned w value
  fieldOwned : ∀ {w s address field value}, Holds w s → Owned w (.object address) →
    s.heap.field? address field = some value → Owned w value
  keepsScope : ∀ {w s} {scope : Bindings}, Holds w s →
    (∀ {name value}, scope.get? name = some value → Owned w value) →
    Holds w { s with scope := scope }
  keepsField : ∀ {w s address value} field, Holds w s → Owned w (.object address) →
    Owned w value → Holds w { s with heap := s.heap.setField address field value }
  keepsCreate : ∀ {w s} cls, Holds w s → ∃ after, Later w after ∧
    Owned after (.object s.heap.fresh) ∧ Holds after { s with heap := s.heap.create cls }
  keepsOutput : ∀ {w s} sink trace, Holds w s → Holds w { s with sink := sink, trace := trace }

namespace Invariant

variable (inv : Invariant) {α β : Type}

def Ends (w : inv.World) (R : inv.World → α → Prop) : Outcome RuntimeError State α → Prop
  | .done value state => ∃ after, inv.Later w after ∧ inv.Holds after state ∧ R after value
  | .failed _ state => ∃ after, inv.Later w after ∧ inv.Holds after state
  | .exhausted => True

def Keeps (w : inv.World) (R : inv.World → α → Prop) (machine : Exec α) : Prop :=
  ∀ state, inv.Holds w state → inv.Ends w R (machine state)

variable {inv}

theorem Ends.later {w after : inv.World} {R : inv.World → α → Prop}
    {outcome : Outcome RuntimeError State α} (later : inv.Later w after)
    (ends : inv.Ends after R outcome) : inv.Ends w R outcome := by
  cases outcome with
  | done value state =>
    obtain ⟨last, more, holds, related⟩ := ends
    exact ⟨last, inv.laterTrans later more, holds, related⟩
  | failed error state =>
    obtain ⟨last, more, holds⟩ := ends
    exact ⟨last, inv.laterTrans later more, holds⟩
  | exhausted => trivial

theorem keepsPure {w : inv.World} {R : inv.World → α → Prop} {value : α} (related : R w value) :
    inv.Keeps w R (pure value) :=
  fun _ holds => ⟨w, inv.laterRefl w, holds, related⟩

theorem keepsBind {w : inv.World} {R : inv.World → α → Prop} {S : inv.World → β → Prop}
    {machine : Exec α} {next : α → Exec β} (first : inv.Keeps w R machine)
    (second : ∀ {after value}, inv.Later w after → R after value → inv.Keeps after S (next value)) :
    inv.Keeps w S (machine >>= next) := by
  intro state holds
  have ends := first state holds
  rw [Machine.bindRun]
  cases ran : machine state with
  | done value between =>
    rw [ran] at ends
    obtain ⟨after, later, holds, related⟩ := ends
    exact (second later related between holds).later later
  | failed error between =>
    rw [ran] at ends
    exact ends
  | exhausted => trivial

theorem keepsInScope {w : inv.World} {R : inv.World → α → Prop} {scope : Bindings} {body : Exec α}
    (owned : ∀ {name value}, scope.get? name = some value → inv.Owned w value)
    (kept : inv.Keeps w R body) : inv.Keeps w R (Exec.inScope scope body) := by
  intro state holds
  have ends := kept _ (inv.keepsScope holds owned)
  -- the scope that is come back to was left at `w`, and its values are still owned
  have back : ∀ {after inner}, inv.Later w after → inv.Holds after inner →
      inv.Holds after { inner with scope := state.scope } := fun later inside =>
    inv.keepsScope inside fun bound => inv.ownedLater later (inv.scopeOwned holds bound)
  unfold Exec.inScope
  cases ran : body { state with scope := scope } with
  | done value inner =>
    rw [ran] at ends
    obtain ⟨after, later, inside, related⟩ := ends
    exact ⟨after, later, back later inside, related⟩
  | failed error inner =>
    rw [ran] at ends
    obtain ⟨after, later, inside⟩ := ends
    exact ⟨after, later, back later inside⟩
  | exhausted => trivial

theorem keepsWriteLine {w : inv.World} {R : inv.World → Unit → Prop} (related : R w ())
    (text : String) : inv.Keeps w R (Exec.writeLine text) := by
  intro state holds
  unfold Exec.writeLine
  have kept := inv.keepsOutput (state.sink.writeLine text).2 state.trace holds
  cases written : state.sink.writeLine text with
  | mk fits sink =>
    rw [written] at kept
    cases fits with
    | true => exact ⟨w, inv.laterRefl w, kept, related⟩
    | false => exact ⟨w, inv.laterRefl w, kept⟩

variable (inv)

def simulation (classes : ClassTable) : Simulation classes where
  World := inv.World
  Later := inv.Later
  Same w left right := left = right ∧ inv.Owned w left
  View w s t := s = t ∧ inv.Holds w s
  Run w R machine _ := inv.Keeps w (fun after a => ∃ b, R after a b) machine
  sameLater later same := ⟨same.1, inv.ownedLater later same.2⟩
  samePlain plain := ⟨rfl, inv.ownedPlain plain⟩
  sameAlike := by
    rintro w left _ ⟨rfl, -⟩
    exact left.alikeSelf
  viewScope := by
    rintro w s _ ⟨rfl, holds⟩
    refine ⟨fun name => ?_, rfl⟩
    cases bound : s.scope.get? name with
    | none => exact .none
    | some value => exact .some ⟨rfl, inv.scopeOwned holds bound⟩
  viewField := by
    rintro w s _ left right ⟨rfl, holds⟩ ⟨same, owned⟩ name
    cases same
    cases held : s.heap.field? left name with
    | none => exact .none
    | some value => exact .some ⟨rfl, inv.fieldOwned holds owned held⟩
  viewClass := by
    rintro w s _ left right ⟨rfl, -⟩ ⟨same, -⟩
    cases same
    rfl
  runPure related := keepsPure ⟨_, related⟩
  runFail _ := fun _ holds => ⟨_, inv.laterRefl _, holds⟩
  runExhaust := fun _ _ => trivial
  runBind first second := keepsBind first fun later ⟨_, related⟩ => second later related
  runGet := fun state holds => ⟨_, inv.laterRefl _, holds, state, rfl, holds⟩
  runBindName := by
    rintro w name left _ ⟨rfl, owned⟩ state holds
    refine ⟨w, inv.laterRefl w, inv.keepsScope holds ?_, (), trivial⟩
    intro key value bound
    rw [Bindings.getInsert] at bound
    split at bound
    · cases bound
      exact owned
    · exact inv.scopeOwned holds bound
  runSetField := by
    rintro w a b field left _ ⟨-, owned⟩ ⟨rfl, value⟩ state holds
    exact ⟨w, inv.laterRefl w, inv.keepsField field holds owned value, (), trivial⟩
  runCreate cls := by
    intro state holds
    obtain ⟨after, later, owned, kept⟩ := inv.keepsCreate cls holds
    exact ⟨after, later, kept, state.heap.fresh, rfl, owned⟩
  runRecord event := fun state holds =>
    ⟨_, inv.laterRefl _, inv.keepsOutput state.sink (state.trace.push event) holds, (), trivial⟩
  runWriteLine text := keepsWriteLine ⟨(), trivial⟩ text
  runInScope := by
    intro α β w R left right m n related kept
    refine keepsInScope (fun {name value} bound => ?_) kept
    rcases relatedCases (related.values name) with ⟨absent, -⟩ | ⟨a, b, found, -, same⟩
    · rw [bound] at absent
      cases absent
    · rw [bound] at found
      cases found
      exact same.2
  runPlainText := by
    rintro w s _ left _ ⟨rfl, -⟩ ⟨rfl, -⟩ _
    exact keepsPure ⟨_, rfl⟩

theorem keepsExec (classes : ClassTable) (depth : Nat) (statement : Stmt) (w : inv.World) :
    inv.Keeps w inv.Owned (statement.exec classes (.within classes depth)) := by
  have kept := (inv.simulation classes).runExec ((inv.simulation classes).withinAgree depth)
    statement w
  intro state holds
  have ends := kept state holds
  cases ran : statement.exec classes (.within classes depth) state with
  | done value between =>
    rw [ran] at ends
    obtain ⟨after, later, inside, _, -, owned⟩ := ends
    exact ⟨after, later, inside, owned⟩
  | failed error between =>
    rw [ran] at ends
    exact ends
  | exhausted => trivial

end Invariant

end Offside
