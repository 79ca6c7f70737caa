import Offside.Proofs.Grammar.Completeness
import Offside.Proofs.Grammar.Soundness
import Offside.Proofs.Token.Layout

/-! A source is a program exactly when its tokens are derived, and tokens are derived by one program
at most. The tokens come from the layout of the lines: that is where it shows that they hold the
end of the source only once, and no empty suite. -/
namespace Offside
open Grammar ParserState
open Offside.Parser (Tidy)

namespace Layout

theorem wordsSolid {line : Nat} {text : List Char} {found : List Token}
    (read : words line text = .ok found) : ∀ token ∈ found, token.isLayout = false := by
  induction text using words.induct line generalizing found with
  | case1 text blank =>
    rw [wordsBlank blank] at read
    cases read
    simp
  | case2 text solid error failed =>
    rw [wordsFailed (by simpa using solid) failed] at read
    cases read
  | case3 text solid token rest scanned ih =>
    rw [wordsScanned (by simpa using solid) scanned] at read
    cases more : words line rest with
    | error error =>
      rw [more] at read
      cases read
    | ok others =>
      rw [more] at read
      cases read
      intro word member
      rcases List.mem_cons.mp member with rfl | later
      · exact Token.scanSolid scanned
      · exact ih more word later

theorem tidyWithout {tokens : List Token} (absent : ∀ token ∈ tokens, token ≠ .dedent) :
    Tidy tokens := by
  have apart : tokens.Pairwise fun first second => first = .indent → second ≠ .dedent :=
    List.pairwise_of_forall_mem_list fun _ _ second member _ => absent second member
  exact apart.isChain

theorem tidySteps (before after : Nat) : Tidy (steps before after) := by
  unfold steps
  rcases Nat.le_total before after with up | down
  · rw [Nat.sub_eq_zero_of_le up, List.replicate_zero, List.append_nil]
    exact List.isChain_replicate_of_rel _ (by decide)
  · rw [Nat.sub_eq_zero_of_le down, List.replicate_zero, List.nil_append]
    exact List.isChain_replicate_of_rel _ (by decide)

/- Behind the steps of a line no token of that line goes back, and the line ends with a token of its
own, so an empty suite cannot arise where two parts meet. -/
theorem tidyLine {before line : Nat} {text : List Char} {here : List Token}
    (read : lineTokens before line text = .ok here) :
    Tidy here ∧ here.getLast? = some .newline := by
  by_cases tab : (text.dropWhile (· == ' ')).head? = some '\t'
  · rw [lineTokensTab tab] at read
    cases read
  · rw [lineTokensPlain tab] at read
    cases found : words line text with
    | error error =>
      rw [found] at read
      cases read
    | ok tokens =>
      rw [found] at read
      cases read
      have plain : ∀ token ∈ tokens ++ [.newline], token ≠ .dedent := by
        intro token member
        rcases List.mem_append.mp member with word | last
        · have := wordsSolid found token word
          rintro rfl
          contradiction
        · rw [List.mem_singleton.mp last]
          decide
      refine ⟨?_, by simp⟩
      change Tidy (steps before (levelOf text) ++ tokens ++ [.newline])
      rw [List.append_assoc]
      refine List.isChain_append.mpr ⟨tidySteps _ _, tidyWithout plain, ?_⟩
      intro _ _ second next _
      exact plain second (List.mem_of_mem_head? next)

theorem tidyTokens {line before : Nat} {lines : List (Except ReadError (List Char))}
    {all : List Token} (read : tokensFrom line before lines = .ok all) : Tidy all := by
  induction lines generalizing line before all with
  | nil =>
    cases read
    refine List.isChain_append.mpr ⟨List.isChain_replicate_of_rel _ (by decide), .singleton _, ?_⟩
    intro first _ second next _
    cases next
    decide
  | cons head rest ih =>
    cases head with
    | error cause => cases read
    | ok text =>
      rw [tokensFrom] at read
      cases solid : Text.isBlank text with
      | true =>
        rw [solid, if_pos rfl] at read
        exact ih read
      | false =>
        rw [solid, if_neg (by decide)] at read
        cases here : lineTokens before (line + 1) text with
        | error error =>
          rw [here] at read
          cases read
        | ok front =>
          cases more : tokensFrom (line + 1) (levelOf text) rest with
          | error error =>
            rw [here, more] at read
            cases read
          | ok back =>
            rw [here, more] at read
            cases read
            obtain ⟨tidy, ended⟩ := tidyLine here
            refine List.isChain_append.mpr ⟨tidy, ih more, ?_⟩
            intro first last _ _ same
            rw [ended] at last
            cases last
            contradiction

end Layout

namespace TokenStream

theorem drainEnd {calls : Nat} {lexer : Lexer} {front rest : List Token}
    (held : (drain calls lexer).tokens = front ++ .eof :: rest) :
    rest = [] ∧ (drain calls lexer).failure = none := by
  induction calls generalizing lexer front with
  | zero => simp [drain, tokens] at held
  | succ calls ih =>
    unfold drain at held ⊢
    cases called : lexer.next with
    | mk answer after =>
      cases answer with
      | error error => simp [called, tokens] at held
      | ok token =>
        by_cases last : token = .eof
        · simp only [called, last, if_true, tokens, List.map_cons, List.map_nil] at held ⊢
          cases front <;> simp_all
        · simp only [called, last, if_false] at held ⊢
          cases front with
          | nil => exact absurd (List.cons.inj held).1 last
          | cons first front => exact ih (List.cons.inj held).2

end TokenStream

namespace Program

theorem parseSound {source : Source} {program : Program} {state : ParserState}
    (parsed : parse source = .done program state) :
    ∃ tokens, source.tokens = .ok (tokens ++ [.eof]) ∧ Parses tokens program := by
  obtain ⟨tokens, rest, taken, derived⟩ := Parser.programSound parsed
  have held : (TokenStream.ofSource source).tokens = tokens ++ .eof :: rest :=
    (List.cons.inj taken).2
  obtain ⟨rfl, complete⟩ := TokenStream.drainEnd held
  have read : source.tokens = .ok (tokens ++ [.eof]) := by
    rw [Source.tokens, ← held]
    simp only [TokenStream.ofSource, complete]
  refine ⟨tokens, read, derived ?_⟩
  rw [Source.tokensLayout] at read
  exact (Layout.tidyTokens read).part (List.prefix_append _ _).isInfix

theorem parseWithComplete {source : Source} {before after : ClassTable} {trees : List Stmt}
    {tokens : List Token} (read : source.tokens = .ok (tokens ++ [.eof]))
    (derived : Derives .statements before tokens trees after) :
    ∃ state, parseWith before source = .done ⟨trees, after⟩ state := by
  have held : (TokenStream.ofSource source).tokens = tokens ++ [.eof] := by
    unfold Source.tokens at read
    dsimp only at read
    split at read
    · cases read
    · exact Except.ok.inj read
  exact Parser.programComplete derived ⟨congrArg (Token.eof :: ·) held, rfl⟩

theorem parseComplete {source : Source} {program : Program} {tokens : List Token}
    (read : source.tokens = .ok (tokens ++ [.eof])) (derived : Parses tokens program) :
    ∃ state, parse source = .done program state :=
  parseWithComplete read derived

/- Tokens without a source. A parser in front of them decides between two programs: it returns
both. -/
def standing (tokens : List Token) : ParserState :=
  .ofStream ⟨tokens.map fun token => ⟨token, 0, none⟩, none⟩ .empty

theorem standingStands (tokens : List Token) :
    Stands (standing tokens) .empty (.eof :: tokens) := by
  refine ⟨?_, rfl⟩
  simp [standing, ofStream, ParserState.tokens, Function.comp_def]

theorem parsesUnique {tokens : List Token} {first second : Program}
    (left : Parses tokens first) (right : Parses tokens second) : first = second := by
  have stands := standingStands (tokens ++ [.eof])
  obtain ⟨_, once⟩ := Parser.programComplete left stands
  obtain ⟨_, again⟩ := Parser.programComplete right stands
  rw [once] at again
  exact (Outcome.done.inj again).1

theorem parseExactly (source : Source) :
    (∀ program, (∃ state, parse source = .done program state) ↔
      ∃ tokens, source.tokens = .ok (tokens ++ [.eof]) ∧ Parses tokens program) ∧
    ∀ tokens first second, Parses tokens first → Parses tokens second → first = second := by
  refine ⟨fun program => ⟨?_, ?_⟩, fun tokens first second left right => parsesUnique left right⟩
  · rintro ⟨state, parsed⟩
    exact parseSound parsed
  · rintro ⟨tokens, read, derived⟩
    exact parseComplete read derived

end Program

end Offside
