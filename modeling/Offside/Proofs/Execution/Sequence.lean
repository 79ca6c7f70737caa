import Offside.Proofs.Execution.Habit
import Offside.Proofs.Execution.Printing

/-! Blocks in parts. A block that is cut in two is its first part, and then its second part if the first
one came to its end without a result; a block within a block is as good as its statements. What the
first statements of a program print is therefore the beginning of what the program prints, and where
they fail, it fails. A run reports how many statements it has, so the logs of two runs differ; but no
computation looks at the log. -/
namespace Offside

section
variable (classes : ClassTable) (dispatch : Dispatch)

theorem blockAppend (first second : List Stmt) :
    execBlock classes dispatch (first ++ second) = (do
      let value ← execBlock classes dispatch first
      if value = .none then execBlock classes dispatch second else pure value) := by
  induction first with
  | nil => rw [List.nil_append, execBlock, pure_bind, if_pos rfl]
  | cons statement rest ih =>
    rw [List.cons_append, execBlock, execBlock, bind_assoc]
    congr 1
    funext value
    -- the statement ends the block, or the rest of the block decides
    cases ends : statement.endsBlock && value != .none with
    | true =>
      have some : value ≠ .none := by simpa using (Bool.and_eq_true_iff.mp ends).2
      simp [some]
    | false => simpa using ih

theorem blockSingle (body : List Stmt) :
    execBlock classes dispatch [.block body] = execBlock classes dispatch body := by
  rw [execBlock, Stmt.exec]
  refine Eq.trans ?_ (bind_pure _)
  congr 1
  funext value
  by_cases none : value = .none <;> simp [none, Stmt.endsBlock, execBlock]

theorem blockNested (first second third : List Stmt) :
    execBlock classes dispatch (first ++ [.block second] ++ third) =
      execBlock classes dispatch (first ++ second ++ third) := by
  rw [blockAppend, blockAppend, blockSingle, ← blockAppend, ← blockAppend]

end

inductive Outcome.Unlogged {α : Type} :
    Outcome RuntimeError State α → Outcome RuntimeError State α → Prop where
  | done (value : α) (state : State) (trace : Trace) :
      Unlogged (.done value state) (.done value { state with trace := trace })
  | failed (error : RuntimeError) (state : State) (trace : Trace) :
      Unlogged (.failed error state) (.failed error { state with trace := trace })
  | exhausted : Unlogged .exhausted .exhausted

def LogBlind {α : Type} (machine : Exec α) : Prop :=
  ∀ state trace, (machine state).Unlogged (machine { state with trace := trace })

namespace LogBlind

variable {α β : Type}

theorem bind {machine : Exec α} {next : α → Exec β} (first : LogBlind machine)
    (second : ∀ value, LogBlind (next value)) : LogBlind (machine >>= next) := by
  intro state trace
  have same := first state trace
  rw [Machine.bindRun, Machine.bindRun]
  generalize machine state = left at same
  generalize machine { state with trace := trace } = right at same
  cases same with
  | done value after log => exact second value after log
  | failed error after log => exact .failed error after log
  | exhausted => exact .exhausted

theorem inScope {body : Exec α} (scope : Bindings) (blind : LogBlind body) :
    LogBlind (Exec.inScope scope body) := by
  intro state trace
  have same := blind { state with scope := scope } trace
  unfold Exec.inScope
  dsimp only
  generalize body { state with scope := scope } = left at same
  generalize body { state with scope := scope, trace := trace } = right at same
  cases same with
  | done value after log => exact .done value _ log
  | failed error after log => exact .failed error _ log
  | exhausted => exact .exhausted

theorem habit : Habit LogBlind where
  pure value := fun state trace => .done value state trace
  fail error := fun state trace => .failed error state trace
  exhaust := fun _ _ => .exhausted
  bind := bind
  look {_ next} alike each := fun state trace => by
    change (next state state).Unlogged (next { state with trace := trace } { state with trace := trace })
    have same : next { state with trace := trace } = next state := alike rfl rfl
    rw [same]
    exact each state state trace
  bindName _ _ := fun _ trace => .done () _ trace
  setField _ _ _ := fun _ trace => .done () _ trace
  create _ := fun _ trace => .done _ _ trace
  record _ := fun _ _ => .done () _ _
  writeLine text := fun state trace => by
    unfold Exec.writeLine
    dsimp only
    cases state.sink.writeLine text with
    | mk fits sink =>
      cases fits with
      | true => exact .done () _ trace
      | false => exact .failed _ _ trace
  inScope {_} scope {_} blind := blind.inScope scope

end LogBlind

section
variable {classes : ClassTable} {depth : Nat} {first second : List Stmt} {state after : State}

theorem blockPrints
    (ended : (execBlock classes (.within classes depth) (first ++ second) state).state? = some after) :
    ∃ between, (execBlock classes (.within classes depth) first state).state? = some between ∧
      between.sink.bytes <+: after.sink.bytes := by
  rw [blockAppend, Machine.bindRun] at ended
  cases ran : execBlock classes (.within classes depth) first state with
  | done value between =>
    rw [ran] at ended
    refine ⟨between, rfl, ?_⟩
    dsimp only at ended
    split at ended
    · have onward : ((Stmt.block second).exec classes (.within classes depth) between).state? =
          some after := by
        rw [Stmt.exec]
        exact ended
      exact (printing.movesExec classes depth _ onward).bytes
    · cases ended
      exact List.prefix_refl _
  | failed error between =>
    rw [ran] at ended
    cases ended
    exact ⟨_, rfl, List.prefix_refl _⟩
  | exhausted =>
    rw [ran] at ended
    cases ended

theorem blockFails {dispatch : Dispatch} {error : RuntimeError}
    (failed : execBlock classes dispatch first state = .failed error after) :
    execBlock classes dispatch (first ++ second) state = .failed error after := by
  rw [blockAppend, Machine.bindRun, failed]

end

def Outcome.leave (scope : Bindings) : Outcome RuntimeError State Value → Outcome RuntimeError State Unit
  | .done _ state => .done () { state with scope := scope }
  | .failed error state => .failed error { state with scope := scope }
  | .exhausted => .exhausted

namespace Program

variable (depth : Nat) (program : Program) (state : State)

theorem runLeaves : ((execBlock program.classes (.within program.classes depth) program.statements
      { state with scope := .empty }).leave state.scope).Unlogged (program.run depth state) := by
  have blind : LogBlind (execBlock program.classes (.within program.classes depth) program.statements) :=
    LogBlind.habit.block (LogBlind.habit.within _ depth) _
  have same := blind { state with scope := .empty }
    (state.trace.push (.runStarted program.statements.length))
  change Outcome.Unlogged _ (Outcome.mapState _ (Machine.bind (execBlock _ _ _) _ _))
  unfold Machine.bind
  generalize execBlock program.classes _ program.statements { state with scope := .empty } = left
    at same ⊢
  generalize execBlock program.classes _ program.statements _ = right at same ⊢
  cases same with
  | done value after log => exact .done () _ _
  | failed error after log => exact .failed error _ log
  | exhausted => exact .exhausted

theorem runSink : (program.run depth state).state?.map State.sink =
    (execBlock program.classes (.within program.classes depth) program.statements
      { state with scope := .empty }).state?.map State.sink := by
  have same := program.runLeaves depth state
  generalize execBlock _ _ _ _ = inner at same ⊢
  generalize program.run depth state = outer at same ⊢
  cases inner <;> cases same <;> rfl

theorem failedRun {error : RuntimeError} {after : State}
    (failed : program.run depth state = .failed error after) : ∃ inner trace,
      execBlock program.classes (.within program.classes depth) program.statements
        { state with scope := .empty } = .failed error inner ∧
      after = { inner with scope := state.scope, trace := trace } := by
  have same := program.runLeaves depth state
  rw [failed] at same
  generalize execBlock _ _ _ _ = inner at same ⊢
  cases inner <;> cases same
  exact ⟨_, _, rfl, rfl⟩

theorem runFailed {error : RuntimeError} {inner : State}
    (failed : execBlock program.classes (.within program.classes depth) program.statements
      { state with scope := .empty } = .failed error inner) :
    ∃ trace, program.run depth state =
      .failed error { inner with scope := state.scope, trace := trace } := by
  have same := program.runLeaves depth state
  rw [failed] at same
  generalize program.run depth state = outer at same ⊢
  cases same
  exact ⟨_, rfl⟩

end Program

/- A run of a part is compared with a run of the whole, so both are started in the same state, with the
same classes and the same bound on nested calls. -/
theorem blocksInParts (classes : ClassTable) (dispatch : Dispatch) (first second third : List Stmt)
    (state : State) :
    execBlock classes dispatch (first ++ second) state =
      (match execBlock classes dispatch first state with
      | .done value between =>
        if value = .none then execBlock classes dispatch second between else .done value between
      | .failed error between => .failed error between
      | .exhausted => .exhausted) ∧
    execBlock classes dispatch (first ++ [.block second] ++ third) state =
      execBlock classes dispatch (first ++ second ++ third) state ∧
    ∀ depth,
      (∀ after, (Program.run depth ⟨first ++ second, classes⟩ state).state? = some after →
        ∃ between, (Program.run depth ⟨first, classes⟩ state).state? = some between ∧
          between.sink.bytes <+: after.sink.bytes) ∧
      ∀ error between, Program.run depth ⟨first, classes⟩ state = .failed error between →
        ∃ after, Program.run depth ⟨first ++ second, classes⟩ state = .failed error after ∧
          after = { between with trace := after.trace } := by
  refine ⟨?_, by rw [blockNested], fun depth => ⟨fun after ended => ?_, fun error between failed => ?_⟩⟩
  · rw [blockAppend, Machine.bindRun]
    cases execBlock classes dispatch first state with
    | done value between => dsimp only; split <;> rfl
    | failed error between => rfl
    | exhausted => rfl
  · have whole := Program.runSink depth ⟨first ++ second, classes⟩ state
    rw [ended, Option.map_some, eq_comm, Option.map_eq_some_iff] at whole
    obtain ⟨inner, reached, same⟩ := whole
    obtain ⟨halfway, passed, printed⟩ := blockPrints reached
    have part := Program.runSink depth ⟨first, classes⟩ state
    rw [passed, Option.map_some, Option.map_eq_some_iff] at part
    obtain ⟨between, stopped, sink⟩ := part
    exact ⟨between, stopped, by rw [sink, ← same]; exact printed⟩
  · obtain ⟨inner, trace, stopped, rfl⟩ := Program.failedRun depth ⟨first, classes⟩ state failed
    obtain ⟨log, whole⟩ := Program.runFailed depth ⟨first ++ second, classes⟩ state (blockFails stopped)
    exact ⟨_, whole, rfl⟩

theorem blocksInPartsFailing : ∃ between after,
    Program.run 0 ⟨[.print [.string "a"], .path ["x"]], .empty⟩ (.initial .unlimited) =
      .failed (.unbound "x") between ∧
    Program.run 0 ⟨[.print [.string "a"], .path ["x"], .print [.string "b"]], .empty⟩
      (.initial .unlimited) = .failed (.unbound "x") after ∧
    between.sink.bytes = [0x61, 0x0A] ∧ after.sink.bytes = [0x61, 0x0A] := by
  obtain ⟨between, failed, printed⟩ : ∃ between,
      Program.run 0 ⟨[.print [.string "a"], .path ["x"]], .empty⟩ (.initial .unlimited) =
        .failed (.unbound "x") between ∧ between.sink.bytes = [0x61, 0x0A] :=
    ⟨_, rfl, by decide⟩
  obtain ⟨-, -, whole⟩ := blocksInParts .empty .stuck [.print [.string "a"], .path ["x"]]
    [.print [.string "b"]] [] (.initial .unlimited)
  obtain ⟨after, fails, same⟩ := (whole 0).2 _ between failed
  exact ⟨between, after, failed, fails, printed, by rw [same, printed]⟩

end Offside
