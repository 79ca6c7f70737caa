import Offside.Execution.Run
import Offside.Proofs.Grammar.Progress
import Offside.Proofs.Grammar.Recognition

/-! Why a source is rejected. Faults count in the order of the source: a failure of the lexer is reported
when all tokens in front of it were taken, and a fault of the grammar that shows before is reported
in its place, whatever stands behind the tokens. A rejected source prints nothing. -/
namespace Offside

namespace Lexer

/-- Called again and again, a lexer delivers these tokens, and then the failure; without one, the end
of the source is the last of them. -/
inductive Drains : Lexer → List Token → Option LexError → Prop where
  | failed {lexer after : Lexer} {error : LexError} (called : lexer.next = (.error error, after)) :
      Drains lexer [] (some error)
  | ended {lexer after : Lexer} (called : lexer.next = (.ok .eof, after)) :
      Drains lexer [.eof] none
  | token {lexer after : Lexer} {token : Token} {tokens : List Token} {ending : Option LexError}
      (called : lexer.next = (.ok token, after)) (real : token ≠ .eof)
      (rest : Drains after tokens ending) : Drains lexer (token :: tokens) ending

theorem Drains.unique {lexer : Lexer} {first second : List Token} {one other : Option LexError}
    (drains : lexer.Drains first one) (again : lexer.Drains second other) :
    first = second ∧ one = other := by
  induction drains generalizing second other with
  | failed called =>
    cases again with
    | failed also =>
      rw [called] at also
      cases also
      exact ⟨rfl, rfl⟩
    | ended also | token also =>
      rw [called] at also
      cases also
  | ended called =>
    cases again with
    | ended => exact ⟨rfl, rfl⟩
    | failed also =>
      rw [called] at also
      cases also
    | token also real =>
      rw [called] at also
      cases also
      exact absurd rfl real
  | token called real _ ih =>
    cases again with
    | failed also =>
      rw [called] at also
      cases also
    | ended also =>
      rw [called] at also
      cases also
      exact absurd rfl real
    | token also _ rest =>
      rw [called] at also
      cases also
      obtain ⟨rfl, rfl⟩ := ih rest
      exact ⟨rfl, rfl⟩

theorem Drains.last {lexer : Lexer} {tokens : List Token} {ending : Option LexError}
    (drains : lexer.Drains tokens ending) (complete : ending = none) :
    tokens.getLast? = some .eof := by
  induction drains with
  | failed => cases complete
  | ended => rfl
  | token _ _ _ ih => simp [List.getLast?_cons, ih complete]

end Lexer

namespace TokenStream

theorem drainDrains (calls : Nat) (lexer : Lexer) (enough : lexer.callsLeft < calls) :
    lexer.Drains (drain calls lexer).tokens ((drain calls lexer).failure.map (·.error)) := by
  induction calls generalizing lexer with
  | zero => contradiction
  | succ calls ih =>
    unfold drain
    cases called : lexer.next with
    | mk answer after =>
      cases answer with
      | error error => exact .failed called
      | ok token =>
        by_cases last : token = .eof
        · subst last
          exact .ended called
        · have fewer := Lexer.nextCalls last called
          simp only [last, if_false]
          exact .token called last (ih after (by omega))

theorem sourceDrains (source : Source) :
    (Lexer.ofSource source).Drains (ofSource source).tokens
      ((ofSource source).failure.map (·.error)) :=
  drainDrains _ _ (Lexer.startCalls source)

end TokenStream

namespace Program
open ParserState
open Offside.Parser (Settles)

theorem parseStarved {source : Source}
    (starves : Starves (ofStream (TokenStream.ofSource source) .empty) (parse source))
    (fed : (TokenStream.ofSource source).failure ≠ none) :
    ∃ cause state, (TokenStream.ofSource source).failure = some cause ∧
      parse source = .failed (.lexical cause.error) state := by
  cases parsed : parse source with
  | done program state =>
    rw [parsed] at starves
    cases starves
  | failed error state =>
    rw [parsed] at starves
    obtain ⟨cause, lost, rfl⟩ := starves
    exact ⟨cause, state, lost, rfl⟩
  | exhausted =>
    rw [parsed] at starves
    exact absurd starves fed

theorem parseDecides (source : Source) (tail : List Lexeme) (failure : Option LexFailure) :
    (∃ program state, parse source = .done program state) ∨
    (∃ error state, error.isLexical = false ∧ parse source = .failed error state ∧
      state.lexemes <:+ (ofStream (TokenStream.ofSource source) .empty).lexemes ∧
      Parser.program (ofStream ⟨(TokenStream.ofSource source).lexemes ++ tail, failure⟩ .empty) =
        .failed error (state.followed tail failure)) ∨
    ∃ cause state, (TokenStream.ofSource source).failure = some cause ∧
      parse source = .failed (.lexical cause.error) state := by
  have fed : (TokenStream.ofSource source).failure = none →
      (TokenStream.ofSource source).tokens.getLast? = some .eof := fun complete =>
    (TokenStream.sourceDrains source).last (by rw [complete]; rfl)
  cases held : (TokenStream.ofSource source).lexemes with
  | nil =>
    have starves : Starves (ofStream (TokenStream.ofSource source) .empty) (parse source) :=
      (Settles.advanceStarves held).bind _
    refine .inr (.inr (parseStarved starves fun complete => ?_))
    have last := fed complete
    rw [TokenStream.tokens, held] at last
    cases last
  | cons next rest =>
    have settles : Settles tail failure 0 Parser.program Parser.program
        (ofStream (TokenStream.ofSource source) .empty) :=
      Parser.settled.program (.advanceOnto held)
    cases settles with
    | done ran same moved => exact .inl ⟨_, _, ran⟩
    | @failed error state plain ran same moved =>
      refine .inr (.inl ⟨error, state, plain, ran, ?_, ?_⟩)
      · obtain ⟨taken, split, -⟩ := moved.split
        exact ⟨taken, split.symm⟩
      · rw [← held]
        exact same
    | starved ran ahead =>
      refine .inr (.inr (parseStarved ran fun complete => ?_))
      have last := fed complete
      rw [TokenStream.tokens, held, List.getLast?_map, Option.map_eq_some_iff] at last
      obtain ⟨lexeme, there, token⟩ := last
      refine ahead lexeme ?_ token
      change ((_ :: (TokenStream.ofSource source).lexemes) : List Lexeme).getLast? = some lexeme
      rw [held, List.getLast?_cons_cons, there]

theorem faultStays {source : Source} {error : ParseError} {state : ParserState}
    (plain : error.isLexical = false) (rejected : parse source = .failed error state)
    (stream : TokenStream) (begins : (TokenStream.ofSource source).lexemes <+: stream.lexemes) :
    ∃ final, Parser.program (ofStream stream .empty) = .failed error final := by
  obtain ⟨tail, extended⟩ := begins
  rcases parseDecides source tail stream.failure with ⟨_, _, parsed⟩ | ⟨_, _, -, parsed, -, longer⟩ |
    ⟨_, _, -, parsed⟩ <;> rw [rejected] at parsed <;> cases parsed
  · rw [extended] at longer
    exact ⟨_, longer⟩
  · cases plain

theorem parseUnfinished {source : Source} {cause : LexFailure} {program : Program}
    {state : ParserState} (lost : (TokenStream.ofSource source).failure = some cause) :
    parse source ≠ .done program state := by
  intro parsed
  obtain ⟨tokens, read, -⟩ := parseSound parsed
  simp only [Source.tokens, lost] at read
  cases read

theorem interpretRejected {source : Source} {cause : ParseError} {state : ParserState}
    (rejected : parse source = .failed cause state) (depth : Nat) (sink : Sink) :
    interpret depth sink source = some ⟨some (.ofParse cause), sink, state.trace⟩ := by
  rw [interpret, rejected]

theorem ofParseFaithful (cause : ParseError) :
    (∀ error, cause = .lexical error → ProgramError.ofParse cause = .lexical error) ∧
      (cause.isLexical = false → ProgramError.ofParse cause = .parse cause) := by
  cases cause with
  | lexical error => exact ⟨fun _ same => by cases same; rfl, fun plain => by cases plain⟩
  | _ => exact ⟨fun _ same => (by cases same), fun _ => rfl⟩

/-- A parse always ends. If it fails as the lexer does, that is the first failure of the lexer. If the
lexer fails, so does the parse, as the lexer does or for a fault in front of it that no other tokens
behind would mend. A run of a rejected source prints nothing and reports a failure of the lexer as
such. -/
theorem rejectedInOrder (source : Source) :
    (∃ state, (parse source).state? = some state) ∧
    (∀ error state, parse source = .failed (.lexical error) state →
      ∃ tokens, (Lexer.ofSource source).Drains tokens (some error)) ∧
    (∀ tokens error, (Lexer.ofSource source).Drains tokens (some error) →
      ∃ cause state, parse source = .failed cause state ∧
        (cause = .lexical error ∨ cause.isLexical = false ∧ state.tokens <:+ .eof :: tokens ∧
          ∀ stream : TokenStream, (TokenStream.ofSource source).lexemes <+: stream.lexemes →
            ∃ final, Parser.program (ofStream stream .empty) = .failed cause final)) ∧
    ∀ cause state, parse source = .failed cause state → ∀ depth sink, ∃ report,
      interpret depth sink source = some report ∧ report.sink = sink ∧
      (∀ error, cause = .lexical error → report.failure = some (.lexical error)) ∧
      (cause.isLexical = false → report.failure = some (.parse cause)) := by
  have drains := TokenStream.sourceDrains source
  refine ⟨?_, ?_, ?_, ?_⟩
  · rcases parseDecides source [] none with ⟨program, state, parsed⟩ | ⟨error, state, -, parsed, -⟩ |
      ⟨cause, state, -, parsed⟩ <;> exact ⟨state, by rw [parsed]; rfl⟩
  · intro error state failed
    rcases parseDecides source [] none with ⟨_, _, parsed⟩ | ⟨_, _, plain, parsed, -⟩ |
      ⟨cause, _, lost, parsed⟩ <;> rw [failed] at parsed <;> cases parsed
    · cases plain
    · rw [lost] at drains
      exact ⟨_, drains⟩
  · intro tokens error met
    obtain ⟨rfl, ending⟩ := met.unique drains
    obtain ⟨failure, lost, rfl⟩ := Option.map_eq_some_iff.mp ending.symm
    rcases parseDecides source [] none with ⟨_, _, parsed⟩ | ⟨cause, state, plain, parsed, behind, -⟩ |
      ⟨cause, state, same, parsed⟩
    · exact absurd parsed (parseUnfinished lost)
    · have left := behind.map Lexeme.token
      exact ⟨cause, state, parsed, .inr ⟨plain, left, faultStays plain parsed⟩⟩
    · rw [lost] at same
      cases same
      exact ⟨_, state, parsed, .inl rfl⟩
  · intro cause state rejected depth sink
    obtain ⟨lexical, plain⟩ := ofParseFaithful cause
    refine ⟨_, interpretRejected rejected depth sink, rfl, fun error same => ?_, fun other => ?_⟩
    · exact congrArg some (lexical error same)
    · exact congrArg some (plain other)

def twoFaults : Source := ⟨[.ok "x = = 1".toList, .ok "y = 'a".toList]⟩

theorem rejectedInOrderTwice : ∃ state,
    (Lexer.ofSource twoFaults).Drains
      [.identifier "x", .char '=', .char '=', .number 1, .newline, .identifier "y", .char '=']
      (some (.openString 2)) ∧
    parse twoFaults = .failed (.mismatch .expression (.char '=') 1) state ∧
    state.tokens <:+ [.eof, .identifier "x", .char '=', .char '=', .number 1, .newline,
      .identifier "y", .char '='] ∧
    ∀ stream : TokenStream, (TokenStream.ofSource twoFaults).lexemes <+: stream.lexemes →
      ∃ final, Parser.program (ofStream stream .empty) =
        .failed (.mismatch .expression (.char '=') 1) final := by
  have read : ((TokenStream.ofSource twoFaults).tokens,
      (TokenStream.ofSource twoFaults).failure.map (·.error)) =
      ([.identifier "x", .char '=', .char '=', .number 1, .newline, .identifier "y", .char '='],
        some (.openString 2)) := by
    decide +kernel
  have found : (match parse twoFaults with
      | .failed error _ => some error
      | _ => none) = some (.mismatch .expression (.char '=') 1) := by
    decide +kernel
  obtain ⟨tokens, ending⟩ := Prod.mk.inj read
  have drains := TokenStream.sourceDrains twoFaults
  rw [tokens, ending] at drains
  obtain ⟨cause, state, parsed, reason⟩ := (rejectedInOrder twoFaults).2.2.1 _ _ drains
  rw [parsed, Option.some.injEq] at found
  subst found
  rcases reason with lexical | ⟨-, behind, stays⟩
  · cases lexical
  · exact ⟨state, drains, parsed, behind, stays⟩

end Program

end Offside
