import Offside.Proofs.Source.Validity
import Offside.Proofs.Token.Settling

/-! Where the tokens of a source end at a line that is no text: at the first such line, and only if all
lines before it are read without a failure. -/
namespace Offside

namespace Layout
open Lexer (isFinal scanFailureFinal)

theorem wordsFailureFinal {line : Nat} {text : List Char} {error : LexError}
    (failed : words line text = .error error) : isFinal (.error error) = true := by
  by_cases blank : Text.isBlank text = true
  · rw [wordsBlank blank] at failed
    cases failed
  have solid : Text.isBlank text = false := eq_false_of_ne_true blank
  cases scanned : Token.scan (text.dropWhile isGap) line with
  | error found =>
    rw [wordsFailed solid scanned] at failed
    cases failed
    exact scanFailureFinal scanned
  | ok found =>
    have shorter : found.2.length < text.length := Nat.lt_of_lt_of_le (Token.scanShorter scanned)
      (List.length_dropWhile_le isGap text)
    rw [wordsScanned solid scanned] at failed
    cases rest : words line found.2 with
    | ok tokens =>
      rw [rest] at failed
      cases failed
    | error later =>
      rw [rest] at failed
      cases failed
      exact wordsFailureFinal rest
termination_by text.length

theorem lineFailureFinal {before line : Nat} {text : List Char} {error : LexError}
    (failed : lineTokens before line text = .error error) : isFinal (.error error) = true := by
  by_cases tab : (text.dropWhile (· == ' ')).head? = some '\t'
  · rw [lineTokensTab tab] at failed
    cases failed
    rfl
  · rw [lineTokensPlain tab] at failed
    cases found : words line text with
    | ok tokens =>
      rw [found] at failed
      cases failed
    | error first =>
      rw [found] at failed
      cases failed
      exact wordsFailureFinal found

theorem tokensFromText (line before : Nat) (text : List Char) :
    (∃ error, isFinal (.error error) = true ∧
      ∀ rest, tokensFrom line before (.ok text :: rest) = .error error) ∨
    ∃ level here, ∀ rest, tokensFrom line before (.ok text :: rest) =
      (tokensFrom (line + 1) level rest).map (here ++ ·) := by
  simp only [tokensFrom]
  cases Text.isBlank text with
  | true =>
    refine .inr ⟨before, [], fun rest => ?_⟩
    change tokensFrom (line + 1) before rest = _
    cases tokensFrom (line + 1) before rest <;> rfl
  | false =>
    cases here : lineTokens before (line + 1) text with
    | error error => exact .inl ⟨error, lineFailureFinal here, fun rest => rfl⟩
    | ok found =>
      refine .inr ⟨levelOf text, found, fun rest => ?_⟩
      change (tokensFrom (line + 1) (levelOf text) rest >>= fun more => pure (found ++ more)) = _
      cases tokensFrom (line + 1) (levelOf text) rest <;> rfl

theorem mapOk {α : Type} {result : Except LexError α} {f : α → α} {value : α}
    (mapped : result.map f = .ok value) : ∃ found, result = .ok found := by
  cases result with
  | error error => cases mapped
  | ok found => exact ⟨found, rfl⟩

section Lines

variable {line before : Nat} {tokens : List Token} {lines rest : List (Except ReadError (List Char))}

theorem tokensFromReadable (read : tokensFrom line before lines = .ok tokens) :
    ∀ line ∈ lines, line.isOk = true := by
  induction lines generalizing line before tokens with
  | nil => exact fun _ none => absurd none List.not_mem_nil
  | cons head tail ih =>
    cases head with
    | error cause => cases read
    | ok text =>
      rcases tokensFromText line before text with ⟨error, -, stuck⟩ | ⟨level, here, passed⟩
      · rw [stuck] at read
        cases read
      · rw [passed] at read
        obtain ⟨more, behind⟩ := mapOk read
        exact List.forall_mem_cons.mpr ⟨rfl, ih behind⟩

theorem tokensFromBroken (cause : ReadError) (read : tokensFrom line before lines = .ok tokens) :
    tokensFrom line before (lines ++ .error cause :: rest) =
      .error (.unreadable cause (line + lines.length + 1)) := by
  induction lines generalizing line before tokens with
  | nil => rfl
  | cons head tail ih =>
    cases head with
    | error other => cases read
    | ok text =>
      rcases tokensFromText line before text with ⟨error, -, stuck⟩ | ⟨level, here, passed⟩
      · rw [stuck] at read
        cases read
      · rw [passed] at read
        obtain ⟨more, behind⟩ := mapOk read
        have place : line + 1 + tail.length + 1 = line + (Except.ok text :: tail).length + 1 := by
          rw [List.length_cons]
          omega
        rw [List.cons_append, passed, ih behind, place]
        rfl

theorem tokensFromUnreadable {cause : ReadError} {number : Nat}
    (ended : tokensFrom line before lines = .error (.unreadable cause number)) :
    ∃ front rest, lines = front ++ .error cause :: rest ∧ number = line + front.length + 1 ∧
      ∃ tokens, tokensFrom line before front = .ok tokens := by
  induction lines generalizing line before with
  | nil => cases ended
  | cons head tail ih =>
    cases head with
    | error other =>
      cases ended
      exact ⟨[], tail, rfl, rfl, _, rfl⟩
    | ok text =>
      rcases tokensFromText line before text with ⟨error, final, stuck⟩ | ⟨level, here, passed⟩
      · rw [stuck] at ended
        cases ended
        cases final
      · rw [passed] at ended
        cases behind : tokensFrom (line + 1) level tail with
        | ok more =>
          rw [behind] at ended
          cases ended
        | error error =>
          rw [behind] at ended
          cases ended
          obtain ⟨front, rest, rfl, rfl, tokens, read⟩ := ih behind
          refine ⟨.ok text :: front, rest, rfl, by rw [List.length_cons]; omega, here ++ tokens, ?_⟩
          rw [passed, read]
          rfl

end Lines

end Layout

namespace Lexer
open Layout Source

def Ends (source : Source) (answer : Except LexError Token) : Prop :=
  ∃ last, ((ofSource source).call last).1 = answer ∧ isLast answer = true ∧
    ∀ earlier < last, isLast ((ofSource source).call earlier).1 = false

theorem endsFailed {source : Source} {error : LexError} :
    Ends source (.error error) ↔ source.tokens = .error error := by
  obtain ⟨last, -, ending, going, read⟩ := tokensCalls source
  constructor
  · rintro ⟨other, answered, -, before⟩
    obtain rfl : other = last := by
      rcases Nat.lt_trichotomy other last with less | same | more
      · have early := going other less
        rw [answered] at early
        cases early
      · exact same
      · rw [before last more] at ending
        cases ending
    rw [read, answered]
    rfl
  · intro failed
    rw [read] at failed
    cases answered : ((ofSource source).call last).1 with
    | ok token =>
      rw [answered] at failed
      cases failed
    | error found =>
      rw [answered] at failed
      cases failed
      exact ⟨last, answered, rfl, going⟩

theorem tokensPieces (bytes : List UInt8) :
    (ofBytes bytes).tokens = tokensFrom 0 0 ((pieces bytes).map decodeLine) := by
  rw [Source.tokensLayout]
  rcases piecesLines bytes with whole | extra
  · rw [whole, ofBytes]
  · have empty : decodeLine [] = .ok [] := decodeEncoded []
    rw [extra, List.map_append, List.map_singleton, empty, tokensFromBlankEnd, ofBytes]

theorem endsUnreadable {bytes : List UInt8} {cause : ReadError} {number : Nat} :
    Ends (ofBytes bytes) (.error (.unreadable cause number)) ↔
      cause = .invalidText ∧ ∃ front, FirstInvalid bytes front ∧ number = front.length + 1 ∧
        ∃ tokens, Source.tokens ⟨front.map decodeLine⟩ = .ok tokens := by
  rw [endsFailed, tokensPieces]
  simp only [Source.tokensLayout]
  constructor
  · intro ended
    obtain ⟨front, rest, cut, rfl, tokens, read⟩ := tokensFromUnreadable ended
    obtain ⟨earlier, others, same, rfl, behind⟩ := List.map_eq_append_iff.mp cut
    obtain ⟨line, later, rfl, broken, rfl⟩ := List.map_eq_cons_iff.mp behind
    have before : ∀ piece ∈ earlier, Valid piece := by
      intro piece member
      have okay := tokensFromReadable read _ (List.mem_map_of_mem member)
      rw [decodeOk] at okay
      exact of_decide_eq_true okay
    have invalid : ¬ Valid line := by
      intro valid
      obtain ⟨text, decoded⟩ := decodeValid valid
      rw [decoded] at broken
      cases broken
    rw [decodeInvalid invalid] at broken
    cases broken
    exact ⟨rfl, earlier, ⟨line, later, same, before, invalid⟩, by simp, tokens, read⟩
  · rintro ⟨rfl, front, ⟨line, rest, cut, -, invalid⟩, rfl, tokens, read⟩
    rw [cut, List.map_append, List.map_cons, decodeInvalid invalid, tokensFromBroken _ read]
    simp

end Lexer

end Offside
