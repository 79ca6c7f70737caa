/-! Computations that read and change a state, may fail, and may be cut short. A failure keeps the
state that was reached; a computation that was cut short has no result of any kind. -/

namespace Offside

inductive Outcome (ε σ α : Type) where
  | done (value : α) (state : σ)
  | failed (error : ε) (state : σ)
  | exhausted

namespace Outcome

variable {ε σ α : Type}

def state? : Outcome ε σ α → Option σ
  | done _ state | failed _ state => some state
  | exhausted => none

def mapState {τ : Type} (change : σ → τ) : Outcome ε σ α → Outcome ε τ α
  | done value state => done value (change state)
  | failed error state => failed error (change state)
  | exhausted => exhausted

end Outcome

def Machine (ε σ α : Type) : Type := σ → Outcome ε σ α

namespace Machine

variable {ε σ α β : Type}

protected def pure (value : α) : Machine ε σ α := fun state => .done value state

protected def bind (machine : Machine ε σ α) (next : α → Machine ε σ β) : Machine ε σ β :=
  fun state =>
    match machine state with
    | .done value after => next value after
    | .failed error after => .failed error after
    | .exhausted => .exhausted

instance : Monad (Machine ε σ) where
  pure := Machine.pure
  bind := Machine.bind

def fail (error : ε) : Machine ε σ α := fun state => .failed error state

def exhaust : Machine ε σ α := fun _ => .exhausted

def get : Machine ε σ σ := fun state => .done state state

def modify (change : σ → σ) : Machine ε σ Unit := fun state => .done () (change state)

def ofExcept : Except ε α → Machine ε σ α
  | .ok value => fun state => .done value state
  | .error error => fun state => .failed error state

theorem pureRun (value : α) (state : σ) :
    (pure value : Machine ε σ α) state = .done value state := rfl

theorem bindRun (machine : Machine ε σ α) (next : α → Machine ε σ β) (state : σ) :
    (machine >>= next) state =
      match machine state with
      | .done value after => next value after
      | .failed error after => .failed error after
      | .exhausted => .exhausted := rfl

theorem bindDone {machine : Machine ε σ α} {next : α → Machine ε σ β} {state after : σ} {value : β} :
    (machine >>= next) state = .done value after ↔
      ∃ middle between, machine state = .done middle between ∧
        next middle between = .done value after := by
  constructor
  · intro ran
    rw [bindRun] at ran
    cases first : machine state with
    | done middle between => exact ⟨middle, between, rfl, by rw [first] at ran; exact ran⟩
    | failed error between => rw [first] at ran; contradiction
    | exhausted => rw [first] at ran; contradiction
  · intro ⟨middle, between, first, second⟩
    rw [bindRun, first]
    exact second

theorem bindFailed {machine : Machine ε σ α} {next : α → Machine ε σ β} {state after : σ} {error : ε} :
    (machine >>= next) state = .failed error after ↔
      machine state = .failed error after ∨ ∃ middle between,
        machine state = .done middle between ∧ next middle between = .failed error after := by
  constructor
  · intro ran
    rw [bindRun] at ran
    cases first : machine state with
    | done middle between => exact .inr ⟨middle, between, rfl, by rw [first] at ran; exact ran⟩
    | failed other between =>
      rw [first] at ran
      cases ran
      exact .inl rfl
    | exhausted => rw [first] at ran; contradiction
  · intro ran
    rcases ran with failed | ⟨middle, between, first, second⟩
    · rw [bindRun, failed]
    · rw [bindRun, first]
      exact second

theorem bindOf {machine : Machine ε σ α} {state between : σ} {middle : α}
    (ran : machine state = .done middle between) (next : α → Machine ε σ β) :
    (machine >>= next) state = next middle between := by
  rw [bindRun, ran]

instance : LawfulMonad (Machine ε σ) :=
  LawfulMonad.mk' (Machine ε σ)
    (fun machine => by
      funext state
      show Machine.bind machine (fun value => Machine.pure value) state = machine state
      simp only [Machine.bind, Machine.pure]
      cases machine state <;> rfl)
    (fun _ _ => rfl)
    (fun machine _ _ => by
      funext state
      show Machine.bind (Machine.bind machine _) _ state = Machine.bind machine _ state
      simp only [Machine.bind]
      cases machine state <;> rfl)

end Machine

end Offside
