import Offside.Proofs.Execution.Simulation

/-! Programs that print to a sink with a limit. Beside a run whose sink takes everything, the run with
the limit goes through the same states until a write does not fit. There it ends, and it has kept
what fits of all that the other run goes on to print. -/
namespace Offside

def Outcome.ending? {ε σ α : Type} : Outcome ε σ α → Option (Except ε α × σ)
  | .done value state => some (.ok value, state)
  | .failed error state => some (.error error, state)
  | .exhausted => none

theorem Outcome.endingOk {ε σ α : Type} {outcome : Outcome ε σ α} {value : α} {state : σ} :
    outcome.ending? = some (.ok value, state) ↔ outcome = .done value state := by
  cases outcome <;> simp [ending?]

namespace Sink

theorem writeUnlimited (bytes data : List UInt8) :
    (⟨none, bytes⟩ : Sink).write data = (true, ⟨none, bytes ++ data⟩) := by
  simp [write, accepted]

theorem writeLineUnlimited (bytes : List UInt8) (text : String) :
    (⟨none, bytes⟩ : Sink).writeLine text = (true, ⟨none, bytes ++ (utf8 text ++ [0x0A])⟩) := by
  simp only [writeLine, writeUnlimited, List.append_assoc]

theorem writeLimited {limit : Nat} {bytes : List UInt8} (fits : bytes.length ≤ limit)
    (data : List UInt8) : (⟨some limit, bytes⟩ : Sink).write data =
      (decide ((bytes ++ data).length ≤ limit), ⟨some limit, (bytes ++ data).take limit⟩) := by
  have kept : (bytes ++ data).take limit = bytes ++ data.take (limit - bytes.length) := by
    rw [List.take_append, List.take_of_length_le fits]
  simp only [write, accepted, kept, List.length_append, List.length_take, Prod.mk.injEq, and_true]
  rw [Bool.eq_iff_iff, beq_iff_eq, decide_eq_true_iff]
  omega

theorem writeLineLimited {limit : Nat} {bytes : List UInt8} (fits : bytes.length ≤ limit)
    (text : String) : (⟨some limit, bytes⟩ : Sink).writeLine text =
      (decide ((bytes ++ (utf8 text ++ [0x0A])).length ≤ limit),
        ⟨some limit, (bytes ++ (utf8 text ++ [0x0A])).take limit⟩) := by
  rw [writeLine, writeLimited fits, ← List.append_assoc]
  by_cases whole : (bytes ++ utf8 text).length ≤ limit
  · simp only [whole, decide_true, List.take_of_length_le whole]
    exact writeLimited whole [0x0A]
  · have longer : ¬ (bytes ++ utf8 text ++ [0x0A]).length ≤ limit := by
      rw [List.length_append]
      omega
    have kept : (bytes ++ utf8 text ++ [0x0A]).take limit = (bytes ++ utf8 text).take limit :=
      List.take_append_of_le_length (by omega)
    simp only [whole, longer, decide_false, kept]

end Sink

namespace Output

variable {α β γ δ : Type} {limit : Nat}

structure Joined (limit : Nat) (s t : State) : Prop where
  unlimited : s.sink.limit = none
  fits : s.sink.bytes.length ≤ limit
  sink : t.sink = ⟨some limit, s.sink.bytes⟩
  heap : t.heap = s.heap
  scope : Bindings.Related Eq s.scope t.scope

structure Cut (limit : Nat) (s t : State) : Prop where
  spilled : limit < s.sink.bytes.length
  kept : t.sink.bytes = s.sink.bytes.take limit

inductive Follows (limit : Nat) (R : α → β → Prop) :
    Outcome RuntimeError State α → Outcome RuntimeError State β → Prop where
  | done {a : α} {b : β} {s t : State} (related : R a b) (joined : Joined limit s t) :
      Follows limit R (.done a s) (.done b t)
  | failed {error : RuntimeError} {s t : State} (joined : Joined limit s t) :
      Follows limit R (.failed error s) (.failed error t)
  | cut {left : Outcome RuntimeError State α} {s t : State} (ended : left.state? = some s)
      (apart : Cut limit s t) : Follows limit R left (.failed .sinkFull t)
  | exhausted {right : Outcome RuntimeError State β} : Follows limit R .exhausted right

/- What is printed stays printed. This is about the run without a limit alone, also where the other
run has ended, and there its values have nothing beside them. -/
def Grows (R : α → Prop) (bytes : List UInt8) : Outcome RuntimeError State α → Prop
  | .done value s => R value ∧ s.sink.limit = none ∧ bytes <+: s.sink.bytes
  | .failed _ s => s.sink.limit = none ∧ bytes <+: s.sink.bytes
  | .exhausted => True

structure Beside (limit : Nat) (R : α → β → Prop) (m : Exec α) (n : Exec β) : Prop where
  grows : ∀ s, s.sink.limit = none → Grows (fun a => ∃ b, R a b) s.sink.bytes (m s)
  follows : ∀ {s t}, Joined limit s t → Follows limit R (m s) (n t)

theorem Cut.later {s after t : State} (cut : Cut limit s t)
    (grown : s.sink.bytes <+: after.sink.bytes) : Cut limit after t := by
  obtain ⟨more, printed⟩ := grown
  have spilled := cut.spilled
  refine ⟨?_, ?_⟩
  · rw [← printed, List.length_append]
    omega
  · rw [cut.kept, ← printed, List.take_append_of_le_length (by omega)]

theorem Grows.later {R : α → Prop} {first bytes : List UInt8}
    {outcome : Outcome RuntimeError State α} (grown : first <+: bytes)
    (grows : Grows R bytes outcome) : Grows R first outcome := by
  cases outcome with
  | done value s => exact ⟨grows.1, grows.2.1, grown.trans grows.2.2⟩
  | failed error s => exact ⟨grows.1, grown.trans grows.2⟩
  | exhausted => trivial

theorem besideStep {R : α → β → Prop} {m : Exec α} {n : Exec β}
    (left : ∀ s, ∃ a after, m s = .done a after ∧ after.sink = s.sink ∧ ∃ b, R a b)
    (both : ∀ {s t}, Joined limit s t → ∃ a b after other, m s = .done a after ∧
      n t = .done b other ∧ R a b ∧ Joined limit after other) : Beside limit R m n := by
  constructor
  · intro s unlimited
    obtain ⟨a, after, ran, same, related⟩ := left s
    rw [ran]
    refine ⟨related, ?_, ?_⟩
    · rw [same]
      exact unlimited
    · exact ⟨[], by rw [same, List.append_nil]⟩
  · intro s t joined
    obtain ⟨a, b, after, other, ran, beside, related, later⟩ := both joined
    rw [ran, beside]
    exact .done related later

theorem besideBind {R : α → β → Prop} {S : γ → δ → Prop} {m : Exec α} {n : Exec β}
    {f : α → Exec γ} {g : β → Exec δ} (first : Beside limit R m n)
    (second : ∀ {a b}, R a b → Beside limit S (f a) (g b)) :
    Beside limit S (m >>= f) (n >>= g) := by
  have grows : ∀ s, s.sink.limit = none →
      Grows (fun c => ∃ d, S c d) s.sink.bytes ((m >>= f) s) := by
    intro s unlimited
    have before := first.grows s unlimited
    rw [Machine.bindRun]
    cases ran : m s with
    | done a between =>
      rw [ran] at before
      obtain ⟨⟨b, related⟩, still, grown⟩ := before
      exact ((second related).grows between still).later grown
    | failed error between =>
      rw [ran] at before
      exact before
    | exhausted => trivial
  refine ⟨grows, fun {s t} joined => ?_⟩
  have before := first.grows s joined.unlimited
  have beside := first.follows joined
  rw [Machine.bindRun, Machine.bindRun]
  generalize m s = left at before beside
  generalize n t = right at beside
  cases beside with
  | done related joined => exact (second related).follows joined
  | failed joined => exact .failed joined
  | exhausted => exact .exhausted
  | @cut _ between _ ended apart =>
    -- the run with the limit has ended; the other one goes on and only prints more
    cases left with
    | exhausted => cases ended
    | failed error reached => exact .cut ended apart
    | done a reached =>
      cases ended
      obtain ⟨⟨b, related⟩, still, -⟩ := before
      have onward := (second related).grows between still
      dsimp only
      cases ran : f a between with
      | done c after =>
        rw [ran] at onward
        exact .cut rfl (apart.later onward.2.2)
      | failed error after =>
        rw [ran] at onward
        exact .cut rfl (apart.later onward.2)
      | exhausted => exact .exhausted

theorem besideWriteLine (text : String) :
    Beside limit (fun _ _ => True) (Exec.writeLine text) (Exec.writeLine text) := by
  have left : ∀ s : State, s.sink.limit = none → Exec.writeLine text s =
      .done () { s with sink := ⟨none, s.sink.bytes ++ (Sink.utf8 text ++ [0x0A])⟩ } := by
    intro s unlimited
    have sink : s.sink = ⟨none, s.sink.bytes⟩ := by rw [← unlimited]
    unfold Exec.writeLine
    rw [sink, Sink.writeLineUnlimited]
  constructor
  · intro s unlimited
    rw [left s unlimited]
    exact ⟨⟨(), trivial⟩, rfl, List.prefix_append _ _⟩
  · intro s t joined
    rw [left s joined.unlimited]
    unfold Exec.writeLine
    rw [joined.sink, Sink.writeLineLimited joined.fits]
    by_cases fits : (s.sink.bytes ++ (Sink.utf8 text ++ [0x0A])).length ≤ limit
    · simp only [fits, decide_true, List.take_of_length_le fits]
      exact .done trivial ⟨rfl, fits, rfl, joined.heap, joined.scope⟩
    · simp only [fits, decide_false]
      exact .cut rfl ⟨Nat.not_le.mp fits, rfl⟩

theorem besideInScope {R : α → β → Prop} {left right : Bindings} {m : Exec α} {n : Exec β}
    (scopes : Bindings.Related Eq left right) (beside : Beside limit R m n) :
    Beside limit R (Exec.inScope left m) (Exec.inScope right n) := by
  constructor
  · intro s unlimited
    have inner := beside.grows { s with scope := left } unlimited
    unfold Exec.inScope
    cases ran : m { s with scope := left } with
    | done a after =>
      rw [ran] at inner
      exact inner
    | failed error after =>
      rw [ran] at inner
      exact inner
    | exhausted => trivial
  · intro s t joined
    have inside : Joined limit { s with scope := left } { t with scope := right } :=
      ⟨joined.unlimited, joined.fits, joined.sink, joined.heap, scopes⟩
    have inner := beside.follows inside
    unfold Exec.inScope
    generalize m { s with scope := left } = first at inner
    generalize n { t with scope := right } = second at inner
    cases inner with
    | done related inner =>
      exact .done related ⟨inner.unlimited, inner.fits, inner.sink, inner.heap, joined.scope⟩
    | failed inner =>
      exact .failed ⟨inner.unlimited, inner.fits, inner.sink, inner.heap, joined.scope⟩
    | exhausted => exact .exhausted
    | @cut _ between _ ended apart =>
      cases first with
      | exhausted => cases ended
      | done a reached =>
        cases ended
        exact .cut rfl ⟨apart.spilled, apart.kept⟩
      | failed error reached =>
        cases ended
        exact .cut rfl ⟨apart.spilled, apart.kept⟩

def simulation (limit : Nat) (classes : ClassTable) : Simulation classes where
  World := Unit
  Later _ _ := True
  Same _ := Eq
  View _ s t := t.heap = s.heap ∧ Bindings.Related Eq s.scope t.scope
  Run _ R m n := Beside limit (R ()) m n
  sameLater _ same := same
  samePlain _ := rfl
  sameAlike := by
    rintro _ left _ rfl
    exact left.alikeSelf
  viewScope view := view.2
  viewField := by
    rintro _ s t left right ⟨heap, -⟩ same name
    cases same
    rw [heap]
    cases s.heap.field? left name with
    | none => exact .none
    | some value => exact .some rfl
  viewClass := by
    rintro _ s t left right ⟨heap, -⟩ same
    cases same
    rw [heap]
  runPure related := besideStep (fun s => ⟨_, s, rfl, rfl, _, related⟩)
    fun {s t} joined => ⟨_, _, s, t, rfl, rfl, related, joined⟩
  runFail _ := ⟨fun _ unlimited => ⟨unlimited, List.prefix_refl _⟩, fun joined => .failed joined⟩
  runExhaust := ⟨fun _ _ => trivial, fun _ => .exhausted⟩
  runBind first second := besideBind first fun related => second trivial related
  runGet := besideStep
    (fun s => ⟨s, s, rfl, rfl, s, rfl, .refl _⟩)
    fun {s t} joined => ⟨s, t, s, t, rfl, rfl, ⟨joined.heap, joined.scope⟩, joined⟩
  runBindName := by
    rintro _ name left _ rfl
    refine besideStep (fun s => ⟨(), _, rfl, rfl, (), trivial⟩) fun {s t} joined => ?_
    refine ⟨(), (), _, _, rfl, rfl, trivial, ?_⟩
    exact ⟨joined.unlimited, joined.fits, joined.sink, joined.heap, joined.scope.insert rfl name⟩
  runSetField := by
    rintro _ a b field left _ same rfl
    cases same
    refine besideStep (fun s => ⟨(), _, rfl, rfl, (), trivial⟩) fun {s t} joined => ?_
    refine ⟨(), (), _, _, rfl, rfl, trivial, ?_⟩
    have heap := congrArg (Heap.setField · a field left) joined.heap
    exact ⟨joined.unlimited, joined.fits, joined.sink, heap, joined.scope⟩
  runCreate cls := by
    refine besideStep (fun s => ⟨_, _, rfl, rfl, s.heap.fresh, rfl⟩) fun {s t} joined => ?_
    refine ⟨_, _, _, _, rfl, rfl, by rw [joined.heap], ?_⟩
    exact ⟨joined.unlimited, joined.fits, joined.sink, by rw [joined.heap], joined.scope⟩
  runRecord event := by
    refine besideStep (fun s => ⟨(), _, rfl, rfl, (), trivial⟩) fun {s t} joined => ?_
    refine ⟨(), (), _, _, rfl, rfl, trivial, ?_⟩
    exact ⟨joined.unlimited, joined.fits, joined.sink, joined.heap, joined.scope⟩
  runWriteLine text := besideWriteLine text
  runInScope scopes beside := besideInScope scopes beside
  runPlainText := by
    rintro _ s t left _ ⟨heap, -⟩ rfl _
    rw [heap]
    exact besideStep (fun s => ⟨_, s, rfl, rfl, _, rfl⟩)
      fun {s t} joined => ⟨_, _, s, t, rfl, rfl, rfl, joined⟩

end Output

theorem runLimited (depth : Nat) (program : Program) (state : State) (limit : Nat)
    (result : Except RuntimeError Unit) (after : State)
    (ended : (program.run depth { state with sink := .unlimited }).ending? = some (result, after)) :
    ∃ final, (program.run depth { state with sink := .ofLimit (some limit) }).ending? =
        some (if after.sink.bytes.length ≤ limit then result else .error .sinkFull, final) ∧
      final.sink.bytes = after.sink.bytes.take limit := by
  have beside := (Output.simulation limit program.classes).runProgram depth ()
  have start : Output.Joined limit { state with sink := .unlimited }
      { state with sink := .ofLimit (some limit) } :=
    ⟨rfl, Nat.zero_le limit, rfl, rfl, .refl _⟩
  have follows := beside.follows start
  generalize program.run depth { state with sink := .unlimited } = left at ended follows
  generalize program.run depth { state with sink := .ofLimit (some limit) } = right at follows ⊢
  cases follows with
  | done related joined =>
    cases ended
    refine ⟨_, by rw [if_pos joined.fits]; rfl, ?_⟩
    rw [joined.sink, List.take_of_length_le joined.fits]
  | failed joined =>
    cases ended
    refine ⟨_, by rw [if_pos joined.fits]; rfl, ?_⟩
    rw [joined.sink, List.take_of_length_le joined.fits]
  | exhausted => cases ended
  | @cut _ last _ reached apart =>
    have same : last = after := by
      cases left with
      | exhausted => cases ended
      | done value there =>
        cases ended
        cases reached
        rfl
      | failed error there =>
        cases ended
        cases reached
        rfl
    subst same
    exact ⟨_, by rw [if_neg (Nat.not_le.mpr apart.spilled)]; rfl, apart.kept⟩

theorem runLimitedHalfway :
    ∃ after final, (Program.run 0 ⟨[.print [.string "ab"]], .empty⟩
        { State.initial .unlimited with sink := .unlimited }).ending? = some (.ok (), after) ∧
      after.sink.bytes = [0x61, 0x62, 0x0A] ∧
      (Program.run 0 ⟨[.print [.string "ab"]], .empty⟩
        { State.initial .unlimited with sink := .ofLimit (some 2) }).ending? =
          some (.error .sinkFull, final) ∧ final.sink.bytes = [0x61, 0x62] := by
  obtain ⟨final, failed, kept⟩ := runLimited 0 ⟨[.print [.string "ab"]], .empty⟩
    (.initial .unlimited) 2 (.ok ()) _ rfl
  exact ⟨_, final, rfl, by decide, failed, kept⟩

end Offside
