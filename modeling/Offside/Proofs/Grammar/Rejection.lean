import Offside.Proofs.Grammar.Guided
import Offside.Proofs.Token.Stream

/-! A source is rejected at the first token that no program can go on with. The tokens before it begin
a program of the grammar without classes, with it they begin none, and the line that is reported is
the line it stands in. -/
namespace Offside
open Grammar ParserState
open Offside.Parser (spelled)

namespace Parser

theorem finishGuides {rest : Language Token} {state : ParserState} (statements : List Stmt) :
    Guides rest (finish statements) rest state :=
  fun _ => ⟨[], by rw [recordLexemes]; rfl, fun _ member => member, fun _ member => member⟩

theorem statementsGuides {state : ParserState} :
    Guides Category.program.language (bounded (statementsUntil .eof statement) >>= finish)
      (Pattern.exactly .eof).language state := by
  rw [Category.unroll]
  simp only [Category.rule, Pattern.languageSequence, Pattern.languageMany,
    Pattern.languageCategory]
  have ending : Follows (Pattern.exactly .eof).language (· = .eof) := ⟨by simp, .exactly rfl⟩
  refine .bind (.bounded fun rounds => ?_) fun statements final => finishGuides statements
  exact statementsUntilGuides statementGuided rfl (by decide) ending rounds

theorem programReports {state final : ParserState} {expected : Expectation} {found : Token} {line : Nat}
    (failed : program state = .failed (.mismatch expected found line) final)
    (tidy : Tidy (spelled state.upcoming)) :
    ∃ before, state.upcoming = before ++ final.lexemes ∧ found = final.current.token ∧
      line = final.current.line ∧ (∃ rest, Sentence (spelled before ++ rest)) ∧
      ∀ rest, ¬ Sentence (spelled before ++ found :: rest) := by
  unfold program at failed
  cases coming : state.upcoming with
  | nil =>
    rw [Machine.bindRun, advance, coming] at failed
    cases lost : state.failure <;> simp [lost] at failed
  | cons first others =>
    obtain ⟨started, moved, begun⟩ : ∃ started, advance state = .done () started ∧
        started.lexemes = state.upcoming := by
      refine ⟨_, by rw [advance, coming], ?_⟩
      rw [recordLexemes, coming]
      rfl
    have followed := statementsGuides (begun ▸ tidy : Tidy (spelled started.lexemes))
    rw [Machine.bindOf moved] at failed
    rw [failed] at followed
    obtain ⟨rfl, rfl, wanted, ⟨before, leads⟩, ⟨rest, viable⟩, stuck⟩ := followed
    refine ⟨before, ?_, rfl, rfl, ⟨rest, leads.into rest viable⟩, ?_⟩
    · rw [← coming, ← begun]
      exact leads.took
    · intro more sentence
      exact stuck more (leads.onto more sentence)

end Parser

namespace Program
open TokenStream

/-- Whatever classes are known, a mismatch is reported of the token that the lexer delivered last. -/
theorem mismatchEarliest {classes : ClassTable} {source : Source} {expected : Expectation}
    {found : Token} {line : Nat} {parser : ParserState}
    (failed : parseWith classes source = .failed (.mismatch expected found line) parser) :
    ∃ before, (TokenStream.ofSource source).lexemes = before ++ parser.current :: parser.upcoming ∧
      parser.current.token = found ∧ parser.current.line = line ∧
      (∃ sentence, Sentence sentence ∧ spelled before <+: sentence) ∧
      (∀ sentence, Sentence sentence → ¬ spelled before ++ [found] <+: sentence) ∧
      (found.isWritten = true → 0 < line ∧ ∃ text, source.lines[line - 1]? = some (.ok text) ∧
        onLine line (before ++ [parser.current]) <+: Layout.reading line text) := by
  obtain ⟨before, delivered, rfl, rfl, ⟨rest, begins⟩, stuck⟩ :=
    Parser.programReports failed (drainTidy _ _).1
  refine ⟨before, delivered, rfl, rfl, ⟨_, begins, List.prefix_append _ _⟩, ?_, ?_⟩
  · rintro _ sentence ⟨more, rfl⟩
    rw [List.append_assoc] at sentence
    exact stuck more sentence
  · exact sourceLocated delivered

def crowded : Source :=
  ⟨[.ok "x = 1".toList, .ok [], .ok "if x:".toList, .ok "  print x y".toList]⟩

theorem mismatchEarliestCrowded : ∃ parser before,
    parse crowded = .failed (.mismatch (.token .newline) (.identifier "y") 4) parser ∧
    (TokenStream.ofSource crowded).lexemes = before ++ parser.current :: parser.upcoming ∧
    (∃ sentence, Sentence sentence ∧ spelled before <+: sentence) ∧
    (∀ sentence, Sentence sentence → ¬ spelled before ++ [.identifier "y"] <+: sentence) ∧
    onLine 4 (before ++ [parser.current]) <+: Layout.reading 4 "  print x y".toList := by
  have rejected : (match parse crowded with
      | .failed error _ => some error
      | _ => none) = some (.mismatch (.token .newline) (.identifier "y") 4) := by
    decide +kernel
  cases parsed : parse crowded with
  | done program parser => simp [parsed] at rejected
  | exhausted => simp [parsed] at rejected
  | failed error parser =>
    simp only [parsed, Option.some.injEq] at rejected
    subst rejected
    obtain ⟨before, delivered, -, -, viable, stuck, located⟩ := mismatchEarliest parsed
    obtain ⟨-, text, inText, read⟩ := located rfl
    cases inText
    exact ⟨parser, before, rfl, delivered, viable, stuck, read⟩

end Program

end Offside
