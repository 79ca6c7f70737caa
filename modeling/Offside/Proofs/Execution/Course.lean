import Mathlib.Data.List.Chain
import Offside.Proofs.Execution.Growth
import Offside.Proofs.Execution.Habit

/-! The course of an execution: the states that it goes through, one basic step after another, from the
state that it starts in to the one that it ends in. Every run has a course, also one that fails or is
cut short. Along a course objects are created and keep their class; none is taken away. -/
namespace Offside

inductive Exec.Basic : {α : Type} → Exec α → Prop where
  | pure {α : Type} (value : α) : Basic (Pure.pure value)
  | fail {α : Type} (error : RuntimeError) : Basic (Machine.fail error : Exec α)
  | exhaust {α : Type} : Basic (Machine.exhaust : Exec α)
  | get : Basic Machine.get
  | bindName (name : String) (value : Value) : Basic (Exec.bindName name value)
  | setField (address : Address) (field : String) (value : Value) :
      Basic (Exec.setField address field value)
  | create (cls : ClassId) : Basic (Exec.create cls)
  | record (event : Event) : Basic (Exec.record event)
  | writeLine (text : String) : Basic (Exec.writeLine text)

/-- The states that a computation goes through when it is started in a state. -/
inductive Course : {α : Type} → Exec α → State → List State → Prop where
  | basic {α : Type} {machine : Exec α} {start : State} (basic : machine.Basic) :
      Course machine start (start :: (machine start).state?.toList)
  | next {α β : Type} {machine : Exec α} {following : α → Exec β} {start between : State} {value : α}
      {first second : List State} (before : Course machine start first)
      (ran : machine start = .done value between) (behind : Course (following value) between second) :
      Course (machine >>= following) start (first ++ second)
  | stop {α β : Type} {machine : Exec α} {following : α → Exec β} {start : State}
      {states : List State} (before : Course machine start states)
      (ended : ∀ value after, machine start ≠ .done value after) :
      Course (machine >>= following) start states
  | inScope {α : Type} {body : Exec α} {scope : Bindings} {start : State} {states : List State}
      (inner : Course body { start with scope := scope } states) :
      Course (Exec.inScope scope body) start
        (start :: states ++ (Exec.inScope scope body start).state?.toList)

def State.HeapGrows (earlier later : State) : Prop := earlier.heap.Grows later.heap

instance : Trans State.HeapGrows State.HeapGrows State.HeapGrows := ⟨Heap.Grows.trans⟩

namespace Course

variable {α : Type} {machine : Exec α} {start after : State} {states : List State}

theorem bound {β : Type} {following : α → Exec β} (first : ∀ start, ∃ states, Course machine start states)
    (second : ∀ value start, ∃ states, Course (following value) start states) (start : State) :
    ∃ states, Course (machine >>= following) start states := by
  obtain ⟨states, before⟩ := first start
  cases ran : machine start with
  | done value between =>
    obtain ⟨others, behind⟩ := second value between
    exact ⟨_, .next before ran behind⟩
  | failed error between => exact ⟨states, .stop before (by simp [ran])⟩
  | exhausted => exact ⟨states, .stop before (by simp [ran])⟩

theorem habit : Habit fun machine => ∀ start, ∃ states, Course machine start states where
  pure value := fun _ => ⟨_, .basic (.pure value)⟩
  fail error := fun _ => ⟨_, .basic (.fail error)⟩
  exhaust := fun _ => ⟨_, .basic .exhaust⟩
  bind := bound
  look _ each := bound (fun _ => ⟨_, .basic .get⟩) each
  bindName name value := fun _ => ⟨_, .basic (.bindName name value)⟩
  setField address field value := fun _ => ⟨_, .basic (.setField address field value)⟩
  create cls := fun _ => ⟨_, .basic (.create cls)⟩
  record event := fun _ => ⟨_, .basic (.record event)⟩
  writeLine text := fun _ => ⟨_, .basic (.writeLine text)⟩
  inScope {_} scope {_} body := fun start => by
    obtain ⟨states, inner⟩ := body { start with scope := scope }
    exact ⟨_, .inScope inner⟩

theorem starts (course : Course machine start states) : states.head? = some start := by
  induction course with
  | basic => rfl
  | next _ _ _ first => simp [first]
  | stop _ _ first => exact first
  | inScope => rfl

theorem ends (course : Course machine start states) (ended : (machine start).state? = some after) :
    states.getLast? = some after := by
  induction course generalizing after with
  | basic => simp [ended]
  | inScope =>
    rw [ended]
    exact List.getLast?_concat
  | next _ ran _ _ last =>
    rw [Machine.bindOf ran] at ended
    simp [last ended]
  | stop before stopped last =>
    rename_i machine following start states
    refine last ?_
    rw [Machine.bindRun] at ended
    cases ran : machine start with
    | done value between => exact absurd ran (stopped value between)
    | failed error between =>
      rw [ran] at ended
      exact ended
    | exhausted =>
      rw [ran] at ended
      cases ended

theorem basicGrows (basic : machine.Basic) (ended : (machine start).state? = some after) :
    start.heap.Grows after.heap := by
  cases basic with
  | setField address field value =>
    cases ended
    exact start.heap.growsSetField address field value
  | create cls =>
    cases ended
    exact start.heap.growsCreate cls
  | writeLine text =>
    unfold Exec.writeLine at ended
    split at ended <;> cases ended <;> exact .refl _
  | exhaust => cases ended
  | pure | fail | get | bindName | record =>
    cases ended
    exact .refl _

theorem leaves {body : Exec α} {scope : Bindings}
    (ended : (Exec.inScope scope body start).state? = some after) : ∃ inner,
      (body { start with scope := scope }).state? = some inner ∧ inner.heap = after.heap := by
  unfold Exec.inScope at ended
  cases ran : body { start with scope := scope } with
  | done value inner =>
    rw [ran] at ended
    cases ended
    exact ⟨inner, rfl, rfl⟩
  | failed error inner =>
    rw [ran] at ended
    cases ended
    exact ⟨inner, rfl, rfl⟩
  | exhausted =>
    rw [ran] at ended
    cases ended

theorem growsStepwise (course : Course machine start states) :
    states.IsChain State.HeapGrows := by
  induction course with
  | @basic _ machine start basic =>
    cases ended : (machine start).state? with
    | none => exact .singleton start
    | some after => exact .cons_cons (basicGrows basic ended) (.singleton after)
  | next before ran behind first second =>
    refine List.isChain_append.mpr ⟨first, second, fun last isLast head isHead => ?_⟩
    rw [before.ends (by rw [ran]; rfl)] at isLast
    rw [behind.starts] at isHead
    cases isLast
    cases isHead
    exact Heap.Grows.refl _
  | stop _ _ first => exact first
  | @inScope _ body scope start states inner stepwise =>
    -- The scope is changed on the way in and on the way out, the heap is not.
    have entered : (start :: states).IsChain State.HeapGrows := by
      refine List.isChain_cons.mpr ⟨fun head isHead => ?_, stepwise⟩
      rw [inner.starts] at isHead
      cases isHead
      exact Heap.Grows.refl _
    cases ended : (Exec.inScope scope body start).state? with
    | none => simpa using entered
    | some after =>
      refine List.isChain_append.mpr ⟨entered, .singleton after, fun last isLast final isFinal => ?_⟩
      obtain ⟨within, ran, same⟩ := leaves ended
      cases isFinal
      rw [List.getLast?_cons, inner.ends ran] at isLast
      cases isLast
      change within.heap.Grows after.heap
      rw [same]
      exact .refl _

theorem grows (course : Course machine start states) : states.Pairwise State.HeapGrows :=
  course.growsStepwise.pairwise

end Course

end Offside
