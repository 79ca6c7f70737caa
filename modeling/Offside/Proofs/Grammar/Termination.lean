import Offside.Proofs.Execution.Rejected

/-! Parsing ends. Every procedure of the parser, called at any place of a source with room for as many
nested phrases as there are tokens to come, comes to an end, and takes a token when it succeeds. None
asks for a token behind the end of the source: asking there would cut the parse short, and what
might be delivered there makes no difference. -/
namespace Offside

/-- The procedures of the parser. The last of them are the loops, which may end before they take a
token: over the statements up to a token, over the methods of a class, and over the operators of a
level, with what stands to their left. -/
inductive Procedure where
  | statement | simpleStatement | assignmentOrCall | conditional | suite | classDefinition | method
  | disjunction | conjunction | negation | comparison | sum | product | factor | pathOrCall
  | call (path : Path) (name : String) (line : Nat)
  | dotted | list
  | statements (stop : Token) | methods
  | disjuncts (left : Stmt) | conjuncts (left : Stmt) | summands (left : Stmt) | factors (left : Stmt)

namespace Procedure

abbrev Result : Procedure → Type
  | .method => Method
  | .methods => List Method
  | .dotted => Path × String
  | .list | .statements _ => List Stmt
  | _ => Stmt

def isLoop : Procedure → Bool
  | .statements _ | .methods | .disjuncts _ | .conjuncts _ | .summands _ | .factors _ => true
  | _ => false

def least (procedure : Procedure) : Nat := if procedure.isLoop then 0 else 1

open Offside.Parser in
def parser (depth : Nat) : (procedure : Procedure) → Parser procedure.Result
  | .statement => statementOver (statementWithin depth)
  | .simpleStatement => Parser.simpleStatement
  | .assignmentOrCall => Parser.assignmentOrCall
  | .conditional => Parser.conditional (statementWithin depth)
  | .suite => Parser.suite (statementWithin depth)
  | .classDefinition => Parser.classDefinition (statementWithin depth)
  | .method => Parser.method (statementWithin depth)
  | .disjunction => Parser.disjunction (expressionWithin depth)
  | .conjunction => Parser.conjunction (expressionWithin depth)
  | .negation => bounded (Parser.negation (expressionWithin depth))
  | .comparison => Parser.comparison (expressionWithin depth)
  | .sum => Parser.sum (expressionWithin depth)
  | .product => Parser.product (expressionWithin depth)
  | .factor => bounded (Parser.factor (expressionWithin depth))
  | .pathOrCall => Parser.pathOrCall (expressionWithin depth)
  | .call path name line => callRest (expressionWithin depth) path name line
  | .dotted => Parser.dotted
  | .list => commaSeparated (expressionWithin (depth + 1))
  | .statements stop => bounded (statementsUntil stop (statementWithin (depth + 1)))
  | .methods => bounded (Parser.methods (statementWithin depth))
  | .disjuncts left =>
    bounded fun rounds => chainRest orOperator (Parser.conjunction (expressionWithin depth)) rounds left
  | .conjuncts left =>
    bounded fun rounds =>
      chainRest andOperator (bounded (Parser.negation (expressionWithin depth))) rounds left
  | .summands left =>
    bounded fun rounds => chainRest sumOperator (Parser.product (expressionWithin depth)) rounds left
  | .factors left =>
    bounded fun rounds =>
      chainRest productOperator (bounded (Parser.factor (expressionWithin depth))) rounds left

end Procedure

namespace Parser.Routine

variable {Holds : {α : Type} → Aspect → Nat → Parser α → Parser α → ParserState → Prop}
  (routine : Routine Holds)
include routine

theorem expressionWithin (depth : Nat) :
    Below Holds depth 1 (expressionWithin depth) (expressionWithin depth) := by
  induction depth with
  | zero => exact fun _ fits => absurd fits (Nat.not_lt_zero _)
  | succ depth ih => exact routine.disjunction ih

theorem statementWithin (depth : Nat) :
    Below Holds depth 1 (statementWithin depth) (statementWithin depth) := by
  induction depth with
  | zero => exact fun _ fits => absurd fits (Nat.not_lt_zero _)
  | succ depth ih => exact routine.statementOver ih (statementWithinSound depth)

theorem procedure (depth : Nat) (procedure : Procedure) :
    Below Holds (depth + 1) procedure.least (procedure.parser depth) (procedure.parser depth) := by
  have expressions := routine.expressionWithin depth
  have statements := routine.statementWithin depth
  have sound := statementWithinSound depth
  cases procedure with
  | statement => exact routine.statementOver statements sound
  | simpleStatement => exact routine.simpleStatement
  | assignmentOrCall => exact routine.assignmentOrCall
  | conditional => exact routine.conditional statements
  | suite => exact routine.suite statements
  | classDefinition => exact routine.classDefinition statements sound
  | method => exact routine.method statements
  | disjunction => exact routine.disjunction expressions
  | conjunction => exact routine.chain rfl (routine.negation expressions)
  | negation => exact routine.negation expressions
  | comparison => exact routine.comparison expressions
  | sum => exact routine.sum expressions
  | product => exact routine.chain rfl (routine.factor expressions)
  | factor => exact routine.factor expressions
  | pathOrCall => exact routine.pathOrCall expressions
  | call path name line => exact routine.callRest expressions path name line
  | dotted => exact routine.dotted
  | list => exact routine.commaSeparated (routine.expressionWithin (depth + 1))
  | statements stop => exact routine.statementsUntil stop (routine.statementWithin (depth + 1))
  | methods => exact routine.methods statements
  | disjuncts left => exact routine.chainRest rfl (routine.chain rfl (routine.negation expressions)) left
  | conjuncts left => exact routine.chainRest rfl (routine.negation expressions) left
  | summands left => exact routine.chainRest rfl (routine.chain rfl (routine.factor expressions)) left
  | factors left => exact routine.chainRest rfl (routine.factor expressions) left

end Parser.Routine

theorem Lexer.Drains.atEnd {lexer : Lexer} {tokens front rest : List Token} {ending : Option LexError}
    (drains : lexer.Drains tokens ending) (split : tokens = front ++ .eof :: rest) :
    rest = [] ∧ ending = none := by
  induction drains generalizing front with
  | failed => cases front <;> cases split
  | ended =>
    cases front with
    | nil =>
      cases split
      exact ⟨rfl, rfl⟩
    | cons first others => cases others <;> cases split
  | token _ real _ ih =>
    cases front with
    | nil =>
      cases split
      exact absurd rfl real
    | cons first others => exact ih (List.cons.inj split).2

namespace ParserState

structure Reads (source : Source) (state : ParserState) : Prop where
  lexemes : state.lexemes <:+ (TokenStream.ofSource source).lexemes
  failure : state.failure = (TokenStream.ofSource source).failure

variable {source : Source} {state after : ParserState}

theorem Reads.moved {least : Nat} (reads : state.Reads source) (moved : Moved state least after) :
    after.Reads source := by
  obtain ⟨taken, split, -⟩ := moved.split
  have inside : after.lexemes <:+ state.lexemes := ⟨taken, split.symm⟩
  exact ⟨inside.trans reads.lexemes, moved.failure.trans reads.failure⟩

theorem Reads.atEnd (reads : state.Reads source) (last : state.current.token = .eof) :
    Parser.advance state = .exhausted := by
  obtain ⟨front, split⟩ := reads.lexemes
  have tokens : (TokenStream.ofSource source).tokens =
      front.map (·.token) ++ .eof :: state.upcoming.map (·.token) := by
    rw [TokenStream.tokens, ← split, ← last, List.map_append]
    rfl
  obtain ⟨none, complete⟩ := (TokenStream.sourceDrains source).atEnd tokens
  have empty : state.upcoming = [] := List.map_eq_nil_iff.mp none
  have whole : state.failure = Option.none := reads.failure.trans (Option.map_eq_none_iff.mp complete)
  unfold Parser.advance
  rw [empty, whole]

theorem streamEnd {stream : TokenStream} {lexer : Lexer}
    (drains : lexer.Drains stream.tokens (stream.failure.map (·.error))) (complete : stream.failure = none) :
    ∃ lexeme, stream.lexemes.getLast? = some lexeme ∧ lexeme.token = .eof := by
  have last := drains.last (by rw [complete]; rfl)
  rw [TokenStream.tokens, List.getLast?_map] at last
  exact Option.map_eq_some_iff.mp last

def Closed (state : ParserState) : Prop := state.failure = none → ¬ state.Open

theorem Reads.closed (reads : state.Reads source) : state.Closed := by
  intro complete ahead
  obtain ⟨lexeme, last, token⟩ :=
    streamEnd (TokenStream.sourceDrains source) (reads.failure.symm.trans complete)
  obtain ⟨front, split⟩ := reads.lexemes
  have here : state.lexemes.getLast? = some lexeme := by
    rw [← split, List.getLast?_append] at last
    cases found : state.lexemes.getLast? with
    | none => simp [ParserState.lexemes] at found
    | some other => simpa [found] using last
  exact ahead lexeme here token

theorem streamClosed (source : Source) (classes : ClassTable) :
    (ofStream (TokenStream.ofSource source) classes).Closed := by
  intro complete ahead
  obtain ⟨lexeme, last, token⟩ := streamEnd (TokenStream.sourceDrains source) complete
  refine ahead lexeme ?_ token
  rw [ParserState.lexemes, ofStream, List.getLast?_cons, last]
  rfl

end ParserState

namespace Parser
open ParserState

variable {α : Type} {least : Nat} {parser : Parser α} {state : ParserState}

theorem Settles.ends {tail : List Lexeme} {failure : Option LexFailure}
    (settles : Settles tail failure least parser parser state) (closed : state.Closed) :
    ∃ after, (parser state).state? = some after := by
  cases settles with
  | done ran => exact ⟨_, by rw [ran]; rfl⟩
  | failed _ ran => exact ⟨_, by rw [ran]; rfl⟩
  | starved ran ahead =>
    cases ended : parser state with
    | done value after => exact ⟨after, rfl⟩
    | failed error after => exact ⟨after, rfl⟩
    | exhausted =>
      rw [ended] at ran
      exact absurd ahead (closed ran)

theorem Settles.takes {tail : List Lexeme} {failure : Option LexFailure} {value : α}
    {after : ParserState} (settles : Settles tail failure least parser parser state)
    (success : parser state = .done value after) : Moved state least after := by
  cases settles with
  | done ran same moved =>
    rw [ran] at success
    cases success
    exact moved
  | failed _ ran =>
    rw [ran] at success
    cases success
  | starved ran =>
    rw [success] at ran
    cases ran

theorem Settles.beyond {tail : List Lexeme} {failure : Option LexFailure}
    (settles : Settles tail failure least parser parser state) (closed : state.Closed)
    (complete : state.failure = none) :
    parser (state.followed tail failure) = (parser state).mapState (·.followed tail failure) := by
  cases settles with
  | done ran same =>
    rw [ran, same]
    rfl
  | failed _ ran same =>
    rw [ran, same]
    rfl
  | starved _ ahead => exact absurd ahead (closed complete)

end Parser

namespace Program
open ParserState
open Offside.Parser (Settles)

theorem parseWithEnds (classes : ClassTable) (source : Source) :
    ∃ state, (parseWith classes source).state? = some state := by
  have closed := streamClosed source classes
  cases held : (TokenStream.ofSource source).lexemes with
  | nil =>
    have starves : Starves (ofStream (TokenStream.ofSource source) classes) (parseWith classes source) :=
      (Settles.advanceStarves held).bind _
    cases ended : parseWith classes source with
    | done program state => exact ⟨state, rfl⟩
    | failed error state => exact ⟨state, rfl⟩
    | exhausted =>
      rw [ended] at starves
      obtain ⟨lexeme, last, -⟩ := streamEnd (TokenStream.sourceDrains source) starves
      rw [held] at last
      cases last
  | cons next rest =>
    have settles : Settles [] none 0 Parser.program Parser.program
        (ofStream (TokenStream.ofSource source) classes) :=
      Parser.settled.program (.advanceOnto held)
    exact settles.ends closed

/-- Parsing a source ends, whatever the source is. At each of its tokens every procedure ends that is given
room for the tokens to come, takes a token when it succeeds, unless it is a loop, and never asks for a
token behind the end of the source, where asking would cut it short. -/
theorem parseEnds (source : Source) :
    (∀ classes, ∃ state, (parseWith classes source).state? = some state) ∧
    (∀ (procedure : Procedure) (depth : Nat) (state : ParserState), state.Reads source →
      state.upcoming.length ≤ depth →
      (∃ after, (procedure.parser depth state).state? = some after) ∧
      (∀ value after, procedure.parser depth state = .done value after →
        after.Reads source ∧ after.upcoming.length + procedure.least ≤ state.upcoming.length) ∧
      ((TokenStream.ofSource source).failure = none → ∀ tail failure,
        procedure.parser depth (state.followed tail failure) =
          (procedure.parser depth state).mapState (·.followed tail failure))) ∧
    ∀ state : ParserState, state.Reads source → state.current.token = .eof →
      Parser.advance state = .exhausted := by
  refine ⟨fun classes => parseWithEnds classes source, ?_, fun state reads last => reads.atEnd last⟩
  intro procedure depth state reads room
  have settles : ∀ tail failure, Settles tail failure procedure.least (procedure.parser depth)
      (procedure.parser depth) state :=
    fun tail failure => Parser.settled.procedure depth procedure state (Nat.lt_succ_of_le room)
  refine ⟨(settles [] none).ends reads.closed, fun value after success => ?_, fun complete tail failure => ?_⟩
  · have moved := (settles [] none).takes success
    exact ⟨reads.moved moved, moved.shorter⟩
  · exact (settles tail failure).beyond reads.closed (reads.failure.trans complete)

end Program

end Offside
