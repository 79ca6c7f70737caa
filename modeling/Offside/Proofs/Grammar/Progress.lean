import Offside.Proofs.Grammar.Guides
import Offside.Proofs.Grammar.Routine

/-! A parser decides by the tokens that it takes. Whatever follows the tokens of a state, a parser ends
the same, unless it takes the last of them and asks for more; and it does not ask for more behind the
end of the source. The bounds on repetitions depend on what follows, so the parsers that are compared
differ in them. -/
namespace Offside

namespace ParserState

def followed (tail : List Lexeme) (failure : Option LexFailure) (state : ParserState) : ParserState :=
  { state with upcoming := state.upcoming ++ tail, failure := failure }

@[simp] theorem recordFollowed (tail : List Lexeme) (failure : Option LexFailure)
    (event : Option Event) (state : ParserState) :
    (state.followed tail failure).record event = (state.record event).followed tail failure := by
  cases event <;> rfl

def Open (state : ParserState) : Prop := ∀ lexeme ∈ state.lexemes.getLast?, lexeme.token ≠ .eof

structure Moved (state : ParserState) (least : Nat) (after : ParserState) : Prop where
  split : ∃ taken, state.lexemes = taken ++ after.lexemes ∧ least ≤ taken.length
  failure : after.failure = state.failure

theorem movedNothing (state : ParserState) : Moved state 0 state :=
  ⟨⟨[], rfl, Nat.le_refl _⟩, rfl⟩

theorem Moved.trans {state between after : ParserState} {least more : Nat}
    (first : Moved state least between) (second : Moved between more after) :
    Moved state least after := by
  obtain ⟨front, split, enough⟩ := first.split
  obtain ⟨back, rest, -⟩ := second.split
  refine ⟨⟨front ++ back, by rw [split, rest, List.append_assoc], ?_⟩,
    second.failure.trans first.failure⟩
  rw [List.length_append]
  exact Nat.le_add_right_of_le enough

theorem Moved.shorter {state after : ParserState} {least : Nat} (moved : Moved state least after) :
    after.upcoming.length + least ≤ state.upcoming.length := by
  obtain ⟨taken, split, enough⟩ := moved.split
  have lengths := congrArg List.length split
  simp only [lexemes, List.length_append, List.length_cons] at lengths
  omega

theorem Moved.stillOpen {state after : ParserState} {least : Nat} (moved : Moved state least after)
    (ahead : after.Open) : state.Open := by
  obtain ⟨taken, split, -⟩ := moved.split
  have last : state.lexemes.getLast? = after.lexemes.getLast? := by
    rw [split]
    simp [lexemes, List.getLast?_cons]
  unfold Open
  rw [last]
  exact ahead

def Starves {α : Type} (state : ParserState) : Outcome ParseError ParserState α → Prop
  | .done .. => False
  | .failed error _ => ∃ cause, state.failure = some cause ∧ error = .lexical cause.error
  | .exhausted => state.failure = none

theorem Starves.bind {α β : Type} {state : ParserState} {parser : Parser α}
    (starves : Starves state (parser state)) (next : α → Parser β) :
    Starves state ((parser >>= next) state) := by
  rw [Machine.bindRun]
  cases ended : parser state <;> rw [ended] at starves
  · cases starves
  · exact starves
  · exact starves

end ParserState

namespace Parser
open ParserState

/- How a parser ends at a state, and another one at the same place in a longer stream. -/
inductive Settles {α : Type} (tail : List Lexeme) (failure : Option LexFailure) (least : Nat)
    (parser beside : Parser α) (state : ParserState) : Prop where
  | done {value : α} {after : ParserState} (ran : parser state = .done value after)
      (same : beside (state.followed tail failure) = .done value (after.followed tail failure))
      (moved : Moved state least after)
  | failed {error : ParseError} {after : ParserState} (plain : error.isLexical = false)
      (ran : parser state = .failed error after)
      (same : beside (state.followed tail failure) = .failed error (after.followed tail failure))
      (moved : Moved state 0 after)
  | starved (ran : Starves state (parser state)) (ahead : state.Open)

variable {tail : List Lexeme} {failure : Option LexFailure} {α β : Type} {least : Nat}
  {state : ParserState}

namespace Settles

theorem ofEq {parser former beside latter : Parser α}
    (settles : Settles tail failure least former latter state) (ran : parser state = former state)
    (same : beside (state.followed tail failure) = latter (state.followed tail failure)) :
    Settles tail failure least parser beside state := by
  cases settles with
  | done first second moved => exact .done (ran.trans first) (same.trans second) moved
  | failed plain first second moved =>
    exact .failed plain (ran.trans first) (same.trans second) moved
  | starved first ahead => exact .starved (by rw [ran]; exact first) ahead

theorem free {parser beside : Parser α} (settles : Settles tail failure least parser beside state) :
    Settles tail failure 0 parser beside state := by
  cases settles with
  | done ran same moved => exact .done ran same ((movedNothing state).trans moved)
  | failed plain ran same moved => exact .failed plain ran same moved
  | starved ran ahead => exact .starved ran ahead

theorem lead {parser beside : Parser α} {next other : α → Parser β}
    (first : Settles tail failure least parser beside state)
    (second : ∀ value after, after.upcoming.length + least ≤ state.upcoming.length →
      Settles tail failure 0 (next value) (other value) after) :
    Settles tail failure least (parser >>= next) (beside >>= other) state := by
  cases first with
  | @done value between ran same moved =>
    have onward := Machine.bindOf ran next
    have along := Machine.bindOf same other
    cases second value between moved.shorter with
    | done last second further =>
      exact .done (onward.trans last) (along.trans second) (moved.trans further)
    | failed plain last second further =>
      have none : Moved state 0 between := (movedNothing state).trans moved
      exact .failed plain (onward.trans last) (along.trans second) (none.trans further)
    | starved last ahead =>
      refine .starved ?_ (moved.stillOpen ahead)
      rw [onward]
      unfold Starves at last ⊢
      rw [moved.failure] at last
      exact last
  | failed plain ran same moved =>
    refine .failed plain ?_ ?_ moved
    · rw [Machine.bindRun, ran]
    · rw [Machine.bindRun, same]
  | starved ran ahead =>
    exact .starved (ran.bind next) ahead

theorem advanceOnto {next : Lexeme} {rest : List Lexeme} (coming : state.upcoming = next :: rest) :
    Settles tail failure 1 advance advance state := by
  refine .done (by unfold Parser.advance; rw [coming]) ?_ ⟨⟨[state.current], ?_, Nat.le_refl _⟩, ?_⟩
  · have behind : (state.followed tail failure).upcoming = next :: (rest ++ tail) := by
      rw [followed, coming]
      rfl
    unfold Parser.advance
    rw [behind, ← recordFollowed]
    rfl
  · rw [recordLexemes, lexemes, coming]
    rfl
  · cases next.event <;> rfl

theorem advanceStarves (none : state.upcoming = []) : Starves state (Parser.advance state) := by
  unfold Parser.advance
  rw [none]
  cases lost : state.failure with
  | none => exact lost
  | some cause => exact ⟨cause, lost, rfl⟩

theorem advance (real : state.current.token ≠ .eof) :
    Settles tail failure 1 advance advance state := by
  cases coming : state.upcoming with
  | nil =>
    refine .starved (advanceStarves coming) fun lexeme last => ?_
    rw [lexemes, coming] at last
    cases last
    exact real
  | cons next rest => exact advanceOnto coming

theorem declare (name : String) (parent : Option ClassId) (methods : List Method) (line : Nat) :
    Settles tail failure 0 (declare name parent methods line) (declare name parent methods line)
      state := by
  cases found : state.classes.find? name with
  | some cls =>
    have fails : ∀ place : ParserState, place.classes = state.classes →
        Parser.declare name parent methods line place =
          .failed (.declaredTwice name line) place := by
      intro place same
      rw [Parser.declare, same, found]
    exact .failed rfl (fails state rfl) (fails _ rfl) (movedNothing state)
  | none =>
    have enters : ∀ place : ParserState, place.classes = state.classes →
        Parser.declare name parent methods line place =
          .done (.define state.classes.classes.size)
            { place with
              classes := state.classes.declare name parent methods
              trace := place.trace.push
                (.classDeclared name methods.length (parent.map state.classes.nameOf)) } := by
      intro place same
      rw [Parser.declare, same, found]
    exact .done (enters state rfl) (enters _ rfl) ⟨⟨[], rfl, Nat.le_refl _⟩, rfl⟩

end Settles

def Settled (tail : List Lexeme) (failure : Option LexFailure) {α : Type} (_ : Aspect) (least : Nat)
    (parser beside : Parser α) (state : ParserState) : Prop :=
  Settles tail failure least parser beside state

theorem settled : Routine (Settled tail failure) where
  pure value := .done rfl rfl (movedNothing _)
  fail plain := .failed plain rfl rfl (movedNothing _)
  look settles := settles.ofEq rfl rfl
  line {_ _ _ state _ _} settles := (settles state.current.line).ofEq rfl rfl
  known {_ _ _ state _ _} settles := (settles state.classes).ofEq rfl rfl
  advance real := .advance real
  lead first second := first.lead second
  free settles := settles.free
  bounded {_ _ state _ _} settles := by
    have longer : state.upcoming.length ≤ (state.followed tail failure).upcoming.length := by
      rw [followed, List.length_append]
      exact Nat.le_add_right _ _
    exact (settles _ (Nat.lt_succ_of_le longer)).ofEq rfl rfl
  declare name parent methods line := .declare name parent methods line
  enter _ settles := settles
  finish statements := .done rfl rfl ⟨⟨[], rfl, Nat.le_refl _⟩, rfl⟩

end Parser

end Offside
