import Offside.Proofs.Grammar.Lookahead
import Offside.Proofs.Grammar.Soundness

/-! What it is for a language to guide a parser: the tokens taken so far are a way into the language,
what is left of the language is known, and where the parser gives up, nothing that is left starts
with the token in front of it. -/
namespace Offside

namespace ParserState

def lexemes (state : ParserState) : List Lexeme := state.current :: state.upcoming

@[simp] theorem recordLexemes (event : Option Event) (state : ParserState) :
    (state.record event).lexemes = state.lexemes := by
  cases event <;> rfl

end ParserState

namespace Parser
open ParserState Grammar
open Grammar.Pattern hiding token

variable {α β : Type} {before between after : Language Token} {state middle final : ParserState}

def spelled (taken : List Lexeme) : List Token := taken.map (·.token)

/- The tokens from one state to the other lead from one language into the other: what follows them in
the first is, as far as the token in front of the parser tells, what the second holds. -/
structure Leads (before : Language Token) (state : ParserState) (taken : List Lexeme)
    (after : Language Token) (final : ParserState) : Prop where
  took : state.lexemes = taken ++ final.lexemes
  into : ∀ rest ∈ after, spelled taken ++ rest ∈ before
  onto : ∀ rest, spelled taken ++ final.current.token :: rest ∈ before →
    final.current.token :: rest ∈ after

def Passes (before : Language Token) (state : ParserState) (after : Language Token)
    (final : ParserState) : Prop :=
  ∃ taken, Leads before state taken after final

/- A mismatch is reported of the token in front of the parser, and only when something else is
expected there. -/
def Reports (before : Language Token) (state : ParserState) : ParseError → ParserState → Prop
  | .mismatch _ found line, final =>
    found = final.current.token ∧ line = final.current.line ∧
      ∃ expected, Passes before state expected final ∧ Viable expected ∧ Avoids expected found
  | _, _ => True

def Obeys (before : Language Token) (state : ParserState) (after : Language Token) :
    Outcome ParseError ParserState α → Prop
  | .done _ final => Passes before state after final
  | .failed error final => Reports before state error final
  | .exhausted => True

def Guides (before : Language Token) (parser : Parser α) (after : Language Token)
    (state : ParserState) : Prop :=
  Tidy state.tokens → Obeys before state after (parser state)

theorem Passes.focus (narrower : ∀ tokens ∈ after, tokens ∈ before)
    (here : ∀ rest, state.current.token :: rest ∈ before → state.current.token :: rest ∈ after) :
    Passes before state after state :=
  ⟨[], rfl, narrower, here⟩

theorem Passes.trans (first : Passes before state between middle)
    (second : Passes between middle after final) : Passes before state after final := by
  obtain ⟨front, first⟩ := first
  obtain ⟨back, second⟩ := second
  have joined : spelled (front ++ back) = spelled front ++ spelled back := List.map_append
  refine ⟨front ++ back, ?_, ?_, ?_⟩
  · rw [first.took, second.took, List.append_assoc]
  · intro rest member
    rw [joined, List.append_assoc]
    exact first.into _ (second.into rest member)
  · intro rest member
    rw [joined, List.append_assoc] at member
    -- what was taken second, with the token behind it, starts with the token that is in the middle
    have start : ∃ more, spelled back ++ final.current.token :: rest =
        middle.current.token :: more := by
      have took := second.took
      cases back with
      | nil => exact ⟨rest, by rw [(List.cons.inj took).1]; rfl⟩
      | cons next others => exact ⟨_, by rw [(List.cons.inj took).1]; rfl⟩
    obtain ⟨more, start⟩ := start
    rw [start] at member
    have onward := first.onto more member
    rw [← start] at onward
    exact second.onto rest onward

theorem Passes.tidy (passes : Passes before state after final) (tidy : Tidy state.tokens) :
    Tidy final.tokens := by
  obtain ⟨taken, leads⟩ := passes
  have split : state.tokens = spelled taken ++ final.tokens := by
    have took := congrArg (List.map (·.token)) leads.took
    rw [List.map_append] at took
    exact took
  rw [split] at tidy
  exact tidy.part (List.suffix_append _ _).isInfix

theorem Passes.obeys {outcome : Outcome ParseError ParserState α}
    (first : Passes before state between middle) (second : Obeys between middle after outcome) :
    Obeys before state after outcome := by
  cases outcome with
  | done value final => exact first.trans second
  | exhausted => trivial
  | failed error final =>
    cases error with
    | mismatch expected found line =>
      obtain ⟨same, place, expected, passes, stuck⟩ := second
      exact ⟨same, place, expected, first.trans passes, stuck⟩
    | _ => trivial

namespace Guides

theorem bindRan {parser : Parser α} {next : α → Parser β}
    (first : Guides before parser between state)
    (second : Tidy state.tokens → ∀ value middle, parser state = .done value middle →
      Guides between (next value) after middle) : Guides before (parser >>= next) after state := by
  intro tidy
  have led := first tidy
  rw [Machine.bindRun]
  cases ran : parser state with
  | done value middle =>
    rw [ran] at led
    exact led.obeys (second tidy value middle ran (led.tidy tidy))
  | failed error final =>
    rw [ran] at led
    cases error <;> exact led
  | exhausted => trivial

theorem bind {parser : Parser α} {next : α → Parser β} (first : Guides before parser between state)
    (second : ∀ value middle, Guides between (next value) after middle) :
    Guides before (parser >>= next) after state :=
  first.bindRan fun _ value middle _ => second value middle

theorem pure (value : α) : Guides before (pure value) before state :=
  fun _ => .focus (fun _ member => member) fun _ member => member

theorem exhaust : Guides before (Machine.exhaust : Parser α) after state := fun _ => trivial

theorem look {next : Token → Parser α} (chosen : Guides before (next state.current.token) after state) :
    Guides before (current >>= next) after state := chosen

theorem line {next : Nat → Parser α} (each : ∀ line, Guides before (next line) after state) :
    Guides before (line >>= next) after state := each _

theorem known {next : ClassTable → Parser α} (chosen : Guides before (next state.classes) after state) :
    Guides before (classes >>= next) after state := chosen

theorem refuse {error : ParseError}
    (other : ∀ expected found line, error ≠ .mismatch expected found line) :
    Guides before (Machine.fail error : Parser α) after state := by
  intro _
  cases error with
  | mismatch expected found line => exact absurd rfl (other expected found line)
  | _ => trivial

theorem bounded {parser : Nat → Parser α} (each : ∀ rounds, Guides before (parser rounds) after state) :
    Guides before (bounded parser) after state := each _

theorem focus {parser : Parser α} {narrow : Language Token}
    (narrower : ∀ tokens ∈ narrow, tokens ∈ before)
    (here : ∀ rest, state.current.token :: rest ∈ before → state.current.token :: rest ∈ narrow)
    (guides : Guides narrow parser after state) : Guides before parser after state :=
  fun tidy => (Passes.focus narrower here).obeys (guides tidy)

variable {left right rest : Language Token} {parser : Parser α} {accepts : Token → Prop}

theorem former (other : Avoids right state.current.token) (guides : Guides left parser after state) :
    Guides (left + right) parser after state := by
  refine focus (fun _ member => Or.inl member) ?_ guides
  intro rest member
  exact member.resolve_right (other rest)

theorem latter (other : Avoids left state.current.token) (guides : Guides right parser after state) :
    Guides (left + right) parser after state := by
  rw [add_comm]
  exact former other guides

theorem unexpected {expected : Expectation} (viable : Viable before)
    (avoided : Avoids before state.current.token) :
    Guides before (unexpected expected : Parser α) after state :=
  fun _ => ⟨rfl, rfl, before, .focus (fun _ member => member) fun _ member => member, viable, avoided⟩

theorem advance (accepted : accepts state.current.token) :
    Guides ((Pattern.token accepts).language * rest) advance rest state := by
  intro _
  unfold Parser.advance
  cases coming : state.upcoming with
  | nil => cases state.failure <;> trivial
  | cons next others =>
    refine ⟨[state.current], ?_, ?_, ?_⟩
    · rw [recordLexemes]
      simp only [lexemes, coming, List.cons_append, List.nil_append]
    · intro tokens member
      exact consToken.mpr ⟨accepted, member⟩
    · intro tokens member
      exact (consToken.mp member).2

theorem step (accepted : accepts state.current.token) {next : Unit → Parser α}
    (onward : ∀ middle, Guides rest (next ()) after middle) :
    Guides ((Pattern.token accepts).language * rest) (Parser.advance >>= next) after state :=
  (advance accepted).bind fun _ middle => onward middle

theorem expect {token : Token} (viable : Viable rest) :
    Guides ((exactly token).language * rest) (expect token) rest state := by
  refine look ?_
  split
  · rename_i here
    exact advance here
  · rename_i other
    exact unexpected (by simp [viable]) (Starts.mul (.token fun _ same => same) |>.avoids other)

theorem identifier (viable : Viable rest) :
    Guides (name.language * rest) identifier rest state := by
  refine look ?_
  generalize here : state.current.token = token
  cases token with
  | identifier found => exact step ⟨found, here⟩ fun _ => pure found
  | _ =>
    refine unexpected (by simp [viable]) (Starts.mul (.token fun _ named => named) |>.avoids ?_)
    simp [here]

end Guides

end Parser

end Offside
