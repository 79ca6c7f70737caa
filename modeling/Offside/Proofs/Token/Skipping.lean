import Offside.Proofs.Token.Blanks
import Offside.Proofs.Token.Unreadable
import Offside.Proofs.Token.Writing

/-! A lexer that is called again after a line that is no text goes on behind it. Each such line is reported
once, by the call that passes it over, and it is not counted: behind it, the number of a line is its
place less the number of lines that were passed over so. -/
namespace Offside

namespace LexError

def line : LexError → Nat
  | unrecognized _ line => line
  | tabIndent line => line
  | integerTooLarge _ line => line
  | openString line => line
  | unreadable _ line => line

end LexError

theorem Token.scanLine {text : List Char} {line : Nat} {error : LexError}
    (failed : scan text line = .error error) : error.line = line := by
  cases scanFails failed <;> rfl

namespace Lexer
open Layout Source

def isUnreadable : Except LexError Token → Bool
  | .ok _ => false
  | .error (.unreadable ..) => true
  | .error _ => false

def reported (source : Source) (past : List (Except LexError Token × Lexer)) : List Nat :=
  (past.filter (isUnreadable ·.1)).map (·.2.linesTaken source)

/- The lines `front` have been taken: those that cannot be read have been reported, the others counted. -/
structure Skips (source : Source) (past : List (Except LexError Token × Lexer)) (lexer : Lexer)
    (front : List (Except ReadError (List Char))) : Prop where
  split : source.lines = front ++ lexer.source.lines
  reports : reported source past = failures front
  number : lexer.lineNumber + (failures front).length = front.length

section Skipping

variable {source : Source} {past : List (Except LexError Token × Lexer)} {lexer after inside : Lexer}
  {front : List (Except ReadError (List Char))} {cursor : Cursor}

theorem failuresOk (front : List (Except ReadError (List Char))) (texts : List (List Char)) :
    failures (front ++ texts.map .ok) = failures front := by
  have none : (texts.map Except.ok).findIdxs (fun line : Except ReadError (List Char) => !line.isOk)
      (1 + front.length) = [] := by
    rw [List.findIdxs_eq_nil_iff]
    intro line member
    obtain ⟨text, -, rfl⟩ := List.mem_map.mp member
    rfl
  rw [failures, List.findIdxs_append, none, List.append_nil, failures]

theorem Skips.pass (skips : Skips source past lexer front) (texts : List (List Char))
    (ahead : lexer.source.lines = texts.map .ok ++ after.source.lines)
    (number : after.lineNumber = lexer.lineNumber + texts.length) :
    Skips source past after (front ++ texts.map .ok) := by
  have counted := skips.number
  refine ⟨?_, ?_, ?_⟩
  · rw [skips.split, ahead, List.append_assoc]
  · rw [skips.reports, failuresOk]
  · rw [failuresOk, List.length_append, List.length_map]
    omega

theorem failuresNext (front : List (Except ReadError (List Char))) (line : Except ReadError (List Char)) :
    failures (front ++ [line]) =
      failures front ++ if line.isOk then [] else [front.length + 1] := by
  rw [failures, List.findIdxs_append, List.findIdxs_singleton, Nat.add_comm 1, failures]
  cases line <;> rfl

theorem reportedNext (source : Source) (past : List (Except LexError Token × Lexer))
    (call : Except LexError Token × Lexer) :
    reported source (past ++ [call]) =
      reported source past ++ if isUnreadable call.1 then [call.2.linesTaken source] else [] := by
  rw [reported, List.filter_append, List.map_append, reported]
  cases unreadable : isUnreadable call.1 <;> simp [unreadable]

theorem finalReadable {answer : Except LexError Token} (final : isFinal answer = true) :
    isUnreadable answer = false := by
  cases answer with
  | ok token => rfl
  | error error => cases error <;> first | rfl | cases final

theorem Skips.answered (skips : Skips source past inside front) {answer : Except LexError Token}
    (readable : isUnreadable answer = false) (same : after.source = inside.source)
    (number : after.lineNumber = inside.lineNumber) :
    Skips source (past ++ [(answer, after)]) after front := by
  refine ⟨by rw [skips.split, same], ?_, by rw [number, skips.number]⟩
  rw [reportedNext, readable, skips.reports]
  exact List.append_nil _

theorem Enters.skips (enters : lexer.Enters inside cursor) (skips : Skips source past lexer front) :
    ∃ front, Skips source past inside front := by
  cases enters with
  | held => exact ⟨front, skips⟩
  | @fetched text rest line free found =>
    obtain ⟨blanks, -, ahead, number⟩ := fetchPassed found
    refine ⟨_, skips.pass (blanks ++ [text]) ?_ ?_⟩
    · rw [ahead, List.map_append, List.append_assoc]
      rfl
    · rw [number, List.length_append]
      rfl

theorem unreadableTaken {cause : ReadError} {rest : Source} {line : Nat}
    (split : source.lines = front ++ lexer.source.lines)
    (found : lexer.fetch = .failed cause rest line) : ∃ blanks : List (List Char),
      source.lines = (front ++ blanks.map .ok ++ [.error cause]) ++ rest.lines ∧
      line = lexer.lineNumber + blanks.length := by
  obtain ⟨blanks, ahead, number⟩ := fetchPassed found
  refine ⟨blanks, ?_, number⟩
  rw [split, ahead]
  simp

theorem Skips.step {outcome : Except LexError Token × Lexer} (skips : Skips source past lexer front)
    (step : Step lexer outcome) : ∃ front, Skips source (past ++ [outcome]) outcome.2 front := by
  cases step with
  | lineEnd => exact ⟨front, skips.answered rfl rfl rfl⟩
  | tab enters | up enters | down enters | word enters =>
    obtain ⟨front, there⟩ := enters.skips skips
    exact ⟨front, there.answered rfl rfl rfl⟩
  | stuck enters settled failed =>
    obtain ⟨front, there⟩ := enters.skips skips
    exact ⟨front, there.answered (finalReadable (scanFailureFinal failed)) rfl rfl⟩
  | @unreadable cause rest line free found =>
    obtain ⟨blanks, split, number⟩ := unreadableTaken skips.split found
    have taken := (@lineTakenAt
      { lexer with source := rest, buffer := none, lineNumber := line } source _ split).1
    have counted := skips.number
    refine ⟨_, split, ?_, ?_⟩
    · rw [reportedNext, failuresNext, failuresOk, skips.reports, taken, List.length_append,
        List.length_singleton]
      rfl
    · rw [failuresNext, failuresOk, number]
      simp only [List.length_append, List.length_map, List.length_singleton]
      change _ + ((failures front).length + 1) = _
      omega
  | close free found | ended free found =>
    obtain ⟨blanks, ahead, number⟩ := fetchPassed found
    have there := @Skips.pass source past lexer { lexer with source := ⟨[]⟩, lineNumber := _ } front
      skips blanks (ahead.trans (List.append_nil _).symm) number
    exact ⟨_, there.answered rfl rfl rfl⟩

theorem skipsCalls (source : Source) (count : Nat) : ∃ front,
    Skips source ((ofSource source).calls count) ((ofSource source).afterCalls count) front := by
  induction count with
  | zero => exact ⟨[], rfl, rfl, rfl⟩
  | succ count ih =>
    obtain ⟨front, skips⟩ := ih
    rw [callsSucc, afterSucc]
    exact skips.step (nextStep _)

/- The line in which a call fails, and its number: a line that cannot be read is not counted. -/
theorem Step.place {error : LexError} (step : Step lexer (.error error, after))
    (tracks : Tracks source past lexer) : ∃ line, after.lineTaken? source = some line ∧
      error.line = after.lineNumber + if line.isOk then 0 else 1 := by
  cases step with
  | tab enters => exact ⟨_, (enters.tracks tracks).2.1.line, rfl⟩
  | stuck enters settled failed =>
    exact ⟨_, (enters.tracks tracks).2.1.line, Token.scanLine failed⟩
  | @unreadable cause rest line free found =>
    obtain ⟨front, ahead⟩ := tracks.ahead
    obtain ⟨blanks, split, -⟩ := unreadableTaken ahead.symm found
    have taken := (@lineTakenAt
      { lexer with source := rest, buffer := none, lineNumber := line } source _ split).2
    exact ⟨.error cause, by rw [taken]; simp, rfl⟩

theorem Skips.place (skips : Skips source past after front) {line : Except ReadError (List Char)}
    {error : LexError} (taken : after.lineTaken? source = some line)
    (number : error.line = after.lineNumber + if line.isOk then 0 else 1) :
    error.line + (failures (source.lines.take (after.linesTaken source - 1))).length =
      after.linesTaken source := by
  obtain ⟨count, last⟩ := lineTakenAt skips.split
  rw [taken] at last
  obtain ⟨earlier, rfl⟩ : ∃ earlier, front = earlier ++ [line] :=
    ⟨_, (List.dropLast_append_getLast? line last.symm).symm⟩
  have counted := skips.number
  rw [failuresNext, List.length_append] at counted
  have before : source.lines.take (after.linesTaken source - 1) = earlier := by
    rw [count, skips.split]
    simp
  rw [before, number, count, ← counted]
  cases line.isOk with
  | true => rfl
  | false =>
    change after.lineNumber + 1 + (failures earlier).length =
      after.lineNumber + ((failures earlier).length + 1)
    omega

def Begun (lexer : Lexer) : Prop := ∀ cursor, lexer.buffer = some cursor → ∃ found,
  words lexer.lineNumber cursor.line = (words lexer.lineNumber cursor.rest).map (found ++ ·)

theorem mapNothing (result : Except LexError (List Token)) : result.map ([] ++ ·) = result := by
  cases result <;> rfl

theorem Enters.begun (enters : lexer.Enters inside cursor) (begun : lexer.Begun) : inside.Begun := by
  cases enters with
  | held => exact begun
  | fetched =>
    intro cursor held
    cases held
    exact ⟨[], (mapNothing _).symm⟩

theorem Step.begun {outcome : Except LexError Token × Lexer} (step : Step lexer outcome)
    (begun : lexer.Begun) : outcome.2.Begun := by
  cases step with
  | lineEnd | unreadable | close | ended =>
    intro cursor held
    cases held
  | tab enters | up enters | down enters | stuck enters => exact enters.begun begun
  | @word inside cursor token rest enters settled scanned =>
    intro moved held
    cases held
    obtain ⟨there, solid⟩ := enters.stands
    obtain ⟨found, read⟩ := enters.begun begun cursor there
    refine ⟨found ++ [token], ?_⟩
    change words inside.lineNumber (cursor.moveTo rest).line = (words inside.lineNumber rest).map _
    rw [moveToLine scanned, read, wordsScanned solid scanned]
    cases words inside.lineNumber rest with
    | error error => rfl
    | ok more => exact congrArg Except.ok (List.append_assoc found [token] more).symm

theorem begunCalls (source : Source) (count : Nat) : ((ofSource source).afterCalls count).Begun := by
  induction count with
  | zero =>
    intro cursor held
    cases held
  | succ count ih =>
    rw [afterSucc]
    exact (nextStep _).begun ih

theorem lineFailed {before number : Nat} {text : List Char} {error : LexError}
    (failed : words number text = .error error) :
    ∃ error, lineTokens before number text = .error error := by
  rw [lineTokens, failed]
  split <;> exact ⟨_, rfl⟩

theorem lineFailsAnywhere {before number : Nat} {text : List Char} {error : LexError}
    (failed : lineTokens before number text = .error error) (level place : Nat) :
    ∃ error, lineTokens level place text = .error error := by
  by_cases tab : (text.dropWhile (· == ' ')).head? = some '\t'
  · exact ⟨_, lineTokensTab tab⟩
  · have same := wordsTail Text.blankNil text place number
    rw [List.append_nil] at same
    rw [lineTokensPlain tab] at failed
    cases found : words number text with
    | ok tokens =>
      rw [found] at failed
      cases failed
    | error first =>
      rw [found] at same
      cases here : words place text with
      | ok tokens =>
        rw [here] at same
        cases same
      | error error => exact lineFailed here

theorem aloneFails {before number : Nat} {text : List Char} {error : LexError}
    (solid : Text.isBlank text = false) (failed : lineTokens before number text = .error error) :
    ∃ error, Source.tokens ⟨[.ok text]⟩ = .error error := by
  obtain ⟨error, here⟩ := lineFailsAnywhere failed 0 1
  refine ⟨error, ?_⟩
  rw [Source.tokensLayout, tokensFrom, solid, here]
  rfl

theorem Step.final {outcome : Except LexError Token × Lexer} (step : Step lexer outcome)
    (final : isFinal outcome.1 = true) (tracks : Tracks source past lexer) (begun : lexer.Begun) :
    outcome.1 = .ok .eof ∧ outcome.2.source.lines = [] ∨
      ∃ text error, outcome.2.lineTaken? source = some (.ok text) ∧
        Source.tokens ⟨[.ok text]⟩ = .error error := by
  cases step with
  | lineEnd | up | down | unreadable | close => cases final
  | ended => exact .inl ⟨rfl, rfl⟩
  | word _ _ scanned =>
    have solid := Token.scanSolid scanned
    rw [of_decide_eq_true final] at solid
    cases solid
  | @tab inside cursor enters fresh tab =>
    obtain ⟨-, inLine, -⟩ := enters.tracks tracks
    have line : cursor.line = cursor.rest := by rw [Cursor.line, fresh, List.nil_append]
    rw [← line] at tab
    obtain ⟨error, failed⟩ := aloneFails inLine.solid (@lineTokensTab 0 0 _ tab)
    exact .inr ⟨cursor.line, error, inLine.line, failed⟩
  | @stuck inside cursor error enters settled failed =>
    obtain ⟨-, inLine, -⟩ := enters.tracks tracks
    obtain ⟨there, solid⟩ := enters.stands
    obtain ⟨found, read⟩ := enters.begun begun cursor there
    rw [wordsFailed solid failed] at read
    obtain ⟨_, here⟩ := @lineFailed 0 _ _ _ read
    obtain ⟨error, failed⟩ := aloneFails inLine.solid here
    exact .inr ⟨cursor.line, error, inLine.line, failed⟩

end Skipping

theorem Skips.invalid {bytes : List UInt8} {past : List (Except LexError Token × Lexer)} {lexer : Lexer}
    {front : List (Except ReadError (List Char))} (skips : Skips (ofBytes bytes) past lexer front) :
    invalidLines bytes (lexer.linesTaken (ofBytes bytes)) = failures front := by
  rw [← failuresInvalid, (lineTakenAt skips.split).1, skips.split, List.take_left]

/- The tokens end at the first line that is no text, unless a line before it fails, and bytes that are text
give the tokens of the text. A lexer that is called on has at any time reported the lines that are no
text among those it has taken, and counts the others. It comes to the end of the source, or to a line
that fails by itself. -/
theorem invalidLinesSkipped (bytes : List UInt8) :
    let source := ofBytes bytes
    let lexer := ofSource source
    start source = (lexer.call 0).1.map (fun _ => lexer.afterCalls 1) ∧
    (¬ Valid bytes ↔ ∃ front, FirstInvalid bytes front) ∧
    (∀ cause number, Ends source (.error (.unreadable cause number)) ↔
      cause = .invalidText ∧ ∃ front, FirstInvalid bytes front ∧ number = front.length + 1 ∧
        ∃ tokens, Source.tokens ⟨front.map decodeLine⟩ = .ok tokens) ∧
    (Valid bytes → ∃ text, String.fromUTF8? ⟨bytes.toArray⟩ = some text ∧
      source.tokens = (ofString text).tokens ∧ source.tokens = Layout.tokens text) ∧
    (∀ count, let after := lexer.afterCalls count
      reported source (lexer.calls count) = invalidLines bytes (after.linesTaken source) ∧
      after.lineNumber + (invalidLines bytes (after.linesTaken source)).length =
        after.linesTaken source ∧
      ∀ error, (lexer.call count).1 = .error error →
        let place := (lexer.call count).2.linesTaken source
        error.line + (invalidLines bytes (place - 1)).length = place) ∧
    ∃ last, (∀ later ≥ last, lexer.call later = lexer.call last) ∧
      ((lexer.call last).1 = .ok .eof ∧
          reported source (lexer.calls (last + 1)) = invalidLines bytes (pieces bytes).length ∨
        ∃ text error, (lexer.call last).2.lineTaken? source = some (.ok text) ∧
          Source.tokens ⟨[.ok text]⟩ = .error error) := by
  intro source lexer
  refine ⟨startCall source, invalidFirst bytes, fun cause number => endsUnreadable, ?_, ?_, ?_⟩
  · intro valid
    obtain ⟨text, decoded, same⟩ := decodedWhole valid
    have layout : (ofString text).tokens = Layout.tokens text := tokensOfString text
    rw [same] at layout
    exact ⟨text, decoded, by rw [same], layout⟩
  · intro count after
    obtain ⟨front, skips⟩ := skipsCalls source count
    have invalid : invalidLines bytes (after.linesTaken source) = failures front := skips.invalid
    have taken : after.linesTaken source = front.length := (lineTakenAt skips.split).1
    refine ⟨by rw [invalid, skips.reports], by rw [invalid, taken, skips.number], ?_⟩
    intro error answered place
    have step : Step (lexer.afterCalls count) (.error error, (lexer.call count).2) := by
      rw [← answered]
      exact nextStep _
    obtain ⟨line, taken, number⟩ := step.place (tracksCalls source count)
    obtain ⟨front, skips⟩ := skipsCalls source (count + 1)
    rw [afterSucc] at skips
    rw [← failuresInvalid]
    exact skips.place taken number
  · obtain ⟨last, -, final, -⟩ := finalReached lexer
    refine ⟨last, fun later onward => callsRepeat final onward, ?_⟩
    rcases (nextStep _).final final (tracksCalls source last) (begunCalls source last) with
      ⟨ended, nothing⟩ | stuck
    · obtain ⟨front, skips⟩ := skipsCalls source (last + 1)
      rw [afterSucc] at skips
      have whole : source.lines = front := skips.split.trans (by rw [call, nothing, List.append_nil])
      have short : source.lines.length ≤ (pieces bytes).length := linesLength bytes
      refine .inl ⟨ended, ?_⟩
      rw [skips.reports, ← failuresInvalid, List.take_of_length_le short, whole]
    · exact .inr stuck

def spoiled : List UInt8 := [0x78, 0x0A, 0xFF, 0x0A, 0x0A, 0xC3, 0x0A, 0x40]

theorem invalidLinesSkippedTwice :
    let source := ofBytes spoiled
    let lexer := ofSource source
    Ends source (.error (.unreadable .invalidText 2)) ∧
    reported source (lexer.calls 4) = [2, 4] ∧
    (lexer.call 4).1 = .error (.unrecognized ['@'] 3) ∧
    (LexError.unrecognized ['@'] 3).line + (invalidLines spoiled 4).length = 5 := by
  intro source lexer
  obtain ⟨-, -, ends, -, goes, -⟩ := invalidLinesSkipped spoiled
  have first : FirstInvalid spoiled [[0x78]] :=
    ⟨[0xFF], [[], [0xC3], [0x40]], by decide, by decide +kernel, by decide +kernel⟩
  have before : Source.tokens ⟨[[0x78]].map decodeLine⟩ = .ok [.identifier "x", .newline, .eof] := by
    decide +kernel
  have answered : (lexer.call 4).1 = .error (.unrecognized ['@'] 3) := by decide +kernel
  have places : ((lexer.afterCalls 4).linesTaken source, (lexer.call 4).2.linesTaken source) = (4, 5) := by
    decide +kernel
  obtain ⟨reports, -, numbered⟩ := goes 4
  have line := numbered _ answered
  simp only [Prod.mk.injEq] at places
  rw [places.1] at reports
  rw [places.2] at line
  exact ⟨(ends _ _).mpr ⟨rfl, _, first, rfl, _, before⟩, reports.trans (by decide +kernel), answered, line⟩

end Lexer

end Offside
