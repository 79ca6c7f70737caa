import Mathlib.Data.List.Basic
import Offside.Grammar.Expression
import Offside.Proofs.Grammar.Derivation

/-! What the steps of a parser do to the tokens in front of it. A step that succeeds takes tokens from
the front and nothing else; a step finds what it wants when the tokens are there and at least one
more comes after them. -/
namespace Offside

namespace ParserState

def tokens (state : ParserState) : List Token :=
  state.current.token :: state.upcoming.map (·.token)

structure Stands (state : ParserState) (classes : ClassTable) (tokens : List Token) : Prop where
  tokens : state.tokens = tokens
  classes : state.classes = classes

structure Took (state : ParserState) (tokens : List Token) (after : ParserState) : Prop where
  tokens : state.tokens = tokens ++ after.tokens
  classes : after.classes = state.classes

theorem tookNothing (state : ParserState) : Took state [] state := ⟨rfl, rfl⟩

theorem Took.trans {state between after : ParserState} {first second : List Token}
    (left : Took state first between) (right : Took between second after) :
    Took state (first ++ second) after :=
  ⟨by rw [left.tokens, right.tokens, List.append_assoc], right.classes.trans left.classes⟩

theorem Stands.current {state : ParserState} {classes : ClassTable} {token : Token}
    {rest : List Token} (stands : Stands state classes (token :: rest)) :
    state.current.token = token :=
  (List.cons.inj stands.tokens).1

theorem Stands.length {state : ParserState} {classes : ClassTable} {tokens : List Token}
    (stands : Stands state classes tokens) : state.upcoming.length + 1 = tokens.length := by
  rw [← stands.tokens, ParserState.tokens, List.length_cons, List.length_map]

theorem Stands.taken {state after : ParserState} {classes later : ClassTable} {rest : List Token}
    (tokens : List Token) (stands : Stands state classes (tokens ++ rest))
    (there : Stands after later rest) :
    state.upcoming.length = tokens.length + after.upcoming.length := by
  have all := stands.length
  have left := there.length
  rw [List.length_append] at all
  omega

@[simp] theorem recordTokens (event : Option Event) (state : ParserState) :
    (state.record event).tokens = state.tokens := by
  cases event <;> rfl

@[simp] theorem recordClasses (event : Option Event) (state : ParserState) :
    (state.record event).classes = state.classes := by
  cases event <;> rfl

end ParserState

namespace Parser
open ParserState

variable {α β : Type}

@[simp] theorem currentBind (next : Token → Parser β) (state : ParserState) :
    (current >>= next) state = next state.current.token state := rfl

@[simp] theorem lineBind (next : Nat → Parser β) (state : ParserState) :
    (line >>= next) state = next state.current.line state := rfl

@[simp] theorem classesBind (next : ClassTable → Parser β) (state : ParserState) :
    (classes >>= next) state = next state.classes state := rfl

@[simp] theorem pureDone {value result : α} {state after : ParserState} :
    (pure value : Parser α) state = .done result after ↔ value = result ∧ state = after := by
  rw [Machine.pureRun, Outcome.done.injEq]

@[simp] theorem failDone {error : ParseError} {result : α} {state after : ParserState} :
    (Machine.fail error : Parser α) state = .done result after ↔ False := by
  simp [Machine.fail]

@[simp] theorem unexpectedDone {expected : Expectation} {result : α} {state after : ParserState} :
    (unexpected expected : Parser α) state = .done result after ↔ False := by
  simp [unexpected]

theorem advanceTook {state after : ParserState} (moved : advance state = .done () after) :
    Took state [state.current.token] after := by
  unfold advance at moved
  cases coming : state.upcoming with
  | nil =>
    rw [coming] at moved
    cases failure : state.failure <;> simp [failure] at moved
  | cons next rest =>
    rw [coming] at moved
    cases moved
    refine ⟨?_, by rw [recordClasses]⟩
    rw [recordTokens, ParserState.tokens, coming]
    rfl

theorem advanceStands {state : ParserState} {classes : ClassTable} {token : Token}
    {rest : List Token} (stands : Stands state classes (token :: rest)) (more : rest ≠ []) :
    ∃ after, advance state = .done () after ∧ Stands after classes rest := by
  have coming := (List.cons.inj stands.tokens).2
  cases upcoming : state.upcoming with
  | nil =>
    rw [upcoming] at coming
    exact absurd coming.symm more
  | cons lexeme others =>
    rw [upcoming] at coming
    refine ⟨_, by rw [advance, upcoming], ?_⟩
    exact ⟨by rw [recordTokens]; exact coming, by rw [recordClasses]; exact stands.classes⟩

theorem expectTook {token : Token} {state after : ParserState}
    (moved : expect token state = .done () after) : Took state [token] after := by
  unfold expect at moved
  rw [currentBind] at moved
  split at moved
  · rename_i here
    rw [← here]
    exact advanceTook moved
  · simp at moved

theorem expectStands {state : ParserState} {classes : ClassTable} {token : Token}
    {rest : List Token} (stands : Stands state classes (token :: rest)) (more : rest ≠ []) :
    ∃ after, expect token state = .done () after ∧ Stands after classes rest := by
  obtain ⟨after, moved, there⟩ := advanceStands stands more
  exact ⟨after, by rw [expect, currentBind, if_pos stands.current, moved], there⟩

theorem identifierTook {name : String} {state after : ParserState}
    (moved : identifier state = .done name after) : Took state [.identifier name] after := by
  unfold identifier at moved
  rw [currentBind] at moved
  cases here : state.current.token with
  | identifier found =>
    simp only [here] at moved
    obtain ⟨_, between, stepped, last⟩ := Machine.bindDone.mp moved
    obtain ⟨rfl, rfl⟩ := pureDone.mp last
    rw [← here]
    exact advanceTook stepped
  | _ => simp [here] at moved

theorem identifierStands {state : ParserState} {classes : ClassTable} {name : String}
    {rest : List Token} (stands : Stands state classes (.identifier name :: rest))
    (more : rest ≠ []) :
    ∃ after, identifier state = .done name after ∧ Stands after classes rest := by
  obtain ⟨after, moved, there⟩ := advanceStands stands more
  refine ⟨after, ?_, there⟩
  rw [identifier, currentBind, stands.current]
  simp only [Machine.bindOf moved, Machine.pureRun]

theorem productOperatorFound {token : Token} {combine : Stmt → Stmt → Stmt} :
    productOperator token = some combine ↔ ∃ op, (op = .multiply ∨ op = .divide) ∧
      token = Grammar.operatorToken op ∧ combine = .arithmetic op := by
  constructor
  · intro found
    unfold productOperator at found
    split at found <;> cases found
    · exact ⟨.multiply, .inl rfl, rfl, rfl⟩
    · exact ⟨.divide, .inr rfl, rfl, rfl⟩
  · rintro ⟨op, rfl | rfl, rfl, rfl⟩ <;> rfl

theorem sumOperatorFound {token : Token} {combine : Stmt → Stmt → Stmt} :
    sumOperator token = some combine ↔ ∃ op, (op = .add ∨ op = .subtract) ∧
      token = Grammar.operatorToken op ∧ combine = .arithmetic op := by
  constructor
  · intro found
    unfold sumOperator at found
    split at found <;> cases found
    · exact ⟨.add, .inl rfl, rfl, rfl⟩
    · exact ⟨.subtract, .inr rfl, rfl, rfl⟩
  · rintro ⟨op, rfl | rfl, rfl, rfl⟩ <;> rfl

theorem relationFound {token : Token} {relation : Relation} :
    relation? token = some relation ↔ token = Grammar.relationToken relation := by
  constructor
  · intro found
    unfold relation? at found
    split at found <;> cases found <;> rfl
  · rintro rfl
    cases relation <;> rfl

theorem andOperatorFound {token : Token} {combine : Stmt → Stmt → Stmt} :
    andOperator token = some combine ↔ token = .keyword .andK ∧ combine = .both := by
  constructor
  · intro found
    unfold andOperator at found
    split at found <;> cases found
    exact ⟨rfl, rfl⟩
  · rintro ⟨rfl, rfl⟩
    rfl

theorem orOperatorFound {token : Token} {combine : Stmt → Stmt → Stmt} :
    orOperator token = some combine ↔ token = .keyword .orK ∧ combine = .either := by
  constructor
  · intro found
    unfold orOperator at found
    split at found <;> cases found
    exact ⟨rfl, rfl⟩
  · rintro ⟨rfl, rfl⟩
    rfl

end Parser

end Offside
