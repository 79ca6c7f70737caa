import Mathlib.Data.Nat.Find
import Offside.Proofs.Token.Calls

/-! Calling a lexer comes to rest. Every call that is answered otherwise uses up something of the source,
of the line that is being read or of the levels that are open; after the end of the source, or a
failure that lies in a line, every call is answered the same. A source of so many bytes is through
after at most two calls more. -/
namespace Offside

namespace Source

theorem weightCons (line : Except ReadError (List Char))
    (rest : List (Except ReadError (List Char))) :
    weight ⟨line :: rest⟩ = weight ⟨rest⟩ + match line with
      | .ok text => text.length + 1
      | .error _ => 1 := rfl

theorem weightDrop {lines : List (Except ReadError (List Char))} {count : Nat}
    (within : count < lines.length) : weight ⟨lines.drop (count + 1)⟩ < weight ⟨lines⟩ := by
  induction lines generalizing count with
  | nil => exact absurd within (Nat.not_lt_zero count)
  | cons line rest ih =>
    have heavier : weight ⟨rest⟩ < weight ⟨line :: rest⟩ := by
      rw [weightCons]
      cases line <;> exact Nat.lt_add_of_pos_right (Nat.succ_pos _)
    rw [List.drop_succ_cons]
    cases count with
    | zero => exact heavier
    | succ count => exact Nat.lt_trans (ih (Nat.lt_of_succ_lt_succ within)) heavier

theorem encodeLength (text : List Char) : text.length ≤ (encode text).length := by
  induction text with
  | nil => exact Nat.le_refl _
  | cons c rest ih =>
    have some : 0 < (String.utf8EncodeChar c).length :=
      List.length_pos_iff.mpr String.utf8EncodeChar_ne_nil
    have longer : encode (c :: rest) = String.utf8EncodeChar c ++ encode rest := rfl
    rw [longer, List.length_append, List.length_cons]
    omega

theorem decodeLength {bytes : List UInt8} {text : List Char}
    (decoded : decodeLine bytes = .ok text) : text.length ≤ bytes.length := by
  obtain ⟨whole, rfl, rfl⟩ := decodeWhole decoded
  have trimmed : (trimLineEnd whole).length ≤ whole.length := by
    rw [trimLineEnd, List.length_reverse, ← @List.length_reverse _ whole]
    exact List.length_dropWhile_le _ _
  exact Nat.le_trans trimmed (encodeLength _)

/- The line feeds that end the lines pay for the ends of the lines, but for the last line, which may
have none. -/
theorem weightBytes (bytes : List UInt8) : (ofBytes bytes).weight ≤ bytes.length + 1 := by
  have lines : ∀ pieces : List (List UInt8), weight ⟨pieces.map decodeLine⟩ ≤
      (pieces.map fun piece => piece.length + 1).sum := by
    intro pieces
    induction pieces with
    | nil => exact Nat.le_refl _
    | cons piece rest ih =>
      rw [List.map_cons, weightCons, List.map_cons, List.sum_cons]
      cases decoded : decodeLine piece with
      | error cause =>
        dsimp only
        omega
      | ok text =>
        have short := decodeLength decoded
        dsimp only
        omega
  have cut : ((splitLines bytes).map fun piece => piece.length + 1).sum ≤ bytes.length + 1 := by
    induction bytes with
    | nil => exact Nat.zero_le _
    | cons byte rest ih =>
      rw [splitLines]
      split
      · simp only [List.map_cons, List.sum_cons, List.length_nil, List.length_cons]
        omega
      · split
        · simp
        · rename_i line more pieces
          simp only [pieces, List.map_cons, List.sum_cons, List.length_cons] at ih ⊢
          omega
  exact Nat.le_trans (lines _) cut

end Source

namespace Lexer
open Layout

/-- The answers that are repeated for good: the end of the source, and every failure but one to read
a line. -/
def isFinal : Except LexError Token → Bool
  | .ok token => token = .eof
  | .error (.unreadable ..) => false
  | .error _ => true

def isLast : Except LexError Token → Bool
  | .ok token => token = .eof
  | .error _ => true

theorem isLastFinal {answer : Except LexError Token} (final : isFinal answer = true) :
    isLast answer = true := by
  cases answer with
  | ok token => exact final
  | error error => rfl

def results (lexer : Lexer) : Nat → Except LexError Token
  | 0 => .ok lexer.current
  | calls + 1 => (lexer.call calls).1

variable {lexer inside : Lexer} {cursor : Cursor} {outcome : Except LexError Token × Lexer}

theorem Enters.stands (enters : lexer.Enters inside cursor) :
    inside.buffer = some cursor ∧ Text.isBlank cursor.rest = false := by
  cases enters with
  | held held solid => exact ⟨held, solid⟩
  | fetched _ found => exact ⟨rfl, (fetchEntered found).1⟩

theorem Enters.next (enters : lexer.Enters inside cursor) :
    inside.next = deliver (if cursor.done = [] then inside.settle cursor else inside.scanAt cursor) := by
  obtain ⟨held, solid⟩ := enters.stands
  change deliver inside.read = _
  simp only [read, held, readLine, solid, Bool.false_eq_true, if_false]

theorem scanFailureFinal {text : List Char} {line : Nat} {error : LexError}
    (failed : Token.scan text line = .error error) : isFinal (.error error) = true := by
  cases Token.scanFails failed <;> rfl

theorem Step.repeats (step : Step lexer outcome) (final : isFinal outcome.1 = true) :
    outcome.2.next = outcome := by
  cases step with
  | lineEnd | up | down | unreadable | close => cases final
  | word _ _ scanned =>
    have solid := Token.scanSolid scanned
    have last := of_decide_eq_true final
    rw [last] at solid
    cases solid
  | tab enters fresh tab =>
    rw [enters.next, if_pos fresh, settle, if_pos tab]
    rfl
  | @stuck inside cursor error enters settled failed =>
    rw [enters.next]
    split
    · rename_i fresh
      obtain ⟨plain, level⟩ := settled fresh
      have low : ¬ inside.level < Text.indentation cursor.rest / levelWidth :=
        Nat.not_lt.mpr (Nat.le_of_eq level.symm)
      have high : ¬ Text.indentation cursor.rest / levelWidth < inside.level :=
        Nat.not_lt.mpr (Nat.le_of_eq level)
      rw [settle, if_neg plain]
      dsimp only
      rw [if_neg low, if_neg high, scanAtFailed failed]
      rfl
    · rw [scanAtFailed failed]
      rfl
  | ended free found bottom =>
    simp only [Lexer.next, read, fetch, fetchFrom, finish, bottom, if_true]

theorem Step.fewer (step : Step lexer outcome) (going : isFinal outcome.1 = false)
    (made : lexer.next = outcome) : outcome.2.callsLeft < lexer.callsLeft := by
  obtain ⟨answer, after⟩ := outcome
  cases answer with
  | ok token => exact nextCalls (of_decide_eq_false going) made
  | error error =>
    cases step with
    | tab => cases going
    | stuck _ _ failed =>
      rw [scanFailureFinal failed] at going
      cases going
    | unreadable free found =>
      obtain ⟨skipped, left, within⟩ := fetchFailed found
      have lighter := Source.weightDrop within
      rw [← left] at lighter
      simp only [callsLeft, free]
      exact Nat.add_lt_add_right (Nat.add_lt_add_right lighter _) _

theorem callsSpent {count : Nat} (going : ∀ earlier < count, isFinal (lexer.call earlier).1 = false) :
    (lexer.afterCalls count).callsLeft + count ≤ lexer.callsLeft := by
  induction count with
  | zero => exact Nat.le_refl _
  | succ count ih =>
    have before := ih fun earlier less => going earlier (Nat.lt_succ_of_lt less)
    have fewer := (nextStep (lexer.afterCalls count)).fewer (going count (Nat.lt_succ_self count)) rfl
    rw [afterSucc]
    change (lexer.afterCalls count).next.2.callsLeft + (count + 1) ≤ _
    omega

theorem finalReached (lexer : Lexer) : ∃ last ≤ lexer.callsLeft,
    isFinal (lexer.call last).1 = true ∧ ∀ earlier < last, isFinal (lexer.call earlier).1 = false := by
  have some : ∃ count, isFinal (lexer.call count).1 = true := by
    by_contra none
    simp only [not_exists, Bool.not_eq_true] at none
    have spent := @callsSpent lexer (lexer.callsLeft + 1) fun earlier _ => none earlier
    omega
  have before : ∀ earlier < Nat.find some, isFinal (lexer.call earlier).1 = false :=
    fun earlier less => by simpa using Nat.find_min some less
  exact ⟨Nat.find some, by have spent := callsSpent before; omega, Nat.find_spec some, before⟩

theorem callsRepeat {last : Nat} (final : isFinal (lexer.call last).1 = true) {later : Nat}
    (onward : last ≤ later) : lexer.call later = lexer.call last := by
  have again : (lexer.call last).2.next = lexer.call last := (nextStep _).repeats final
  induction later, onward using Nat.le_induction with
  | base => rfl
  | succ later _ ih => rw [call, afterSucc, ih, again]

theorem nextCurrent {token : Token} (delivered : lexer.next.1 = .ok token) :
    lexer.next.2.current = token := by
  unfold Lexer.next at delivered ⊢
  cases got : lexer.read with
  | mk answer left =>
    rw [got] at delivered
    cases answer with
    | error error => cases delivered
    | ok found => exact Except.ok.inj delivered

theorem callShift (lexer : Lexer) (count : Nat) :
    lexer.call (count + 1) = (lexer.afterCalls 1).call count := by
  rw [call, call, afterCalls, afterCalls, afterCalls, ← Function.iterate_add_apply]

theorem startResults {source : Source} (started : start source = .ok lexer) (count : Nat) :
    lexer.results count = ((ofSource source).call count).1 ∧
      lexer.afterCalls count = ((ofSource source).call count).2 := by
  rw [startCall] at started
  cases first : ((ofSource source).call 0).1 with
  | error error =>
    rw [first] at started
    cases started
  | ok token =>
    rw [first] at started
    cases started
    have current : ((ofSource source).afterCalls 1).current = token := by
      rw [afterSucc]
      exact nextCurrent first
    cases count with
    | zero => exact ⟨by rw [results, current, first], afterSucc _ 0⟩
    | succ count => exact ⟨by rw [callShift, results], by rw [callShift, afterSucc]⟩

end Lexer

namespace TokenStream
open Lexer

theorem drainToken {count : Nat} {lexer after : Lexer} {token : Token}
    (called : lexer.next = (.ok token, after)) (real : token ≠ .eof) :
    (drain (count + 1) lexer).result = (drain count after).result.map (token :: ·) := by
  rw [drain, called]
  simp only [if_neg real, result]
  cases (drain count after).failure <;> rfl

theorem drainCalls {count last : Nat} {lexer : Lexer} (enough : last < count)
    (going : ∀ earlier < last, isLast (lexer.call earlier).1 = false)
    (ending : isLast (lexer.call last).1 = true) :
    (drain count lexer).result =
      (lexer.call last).1.map fun _ => delivered (lexer.calls (last + 1)) := by
  induction last generalizing count lexer with
  | zero =>
    obtain ⟨rounds, rfl⟩ := Nat.exists_eq_succ_of_ne_zero (Nat.ne_of_gt enough)
    unfold drain
    change isLast lexer.next.1 = true at ending
    change _ = lexer.next.1.map fun _ => delivered [lexer.next]
    cases called : lexer.next with
    | mk answer after =>
      rw [called] at ending
      cases answer with
      | error error => rfl
      | ok token =>
        obtain rfl : token = .eof := of_decide_eq_true ending
        rfl
  | succ last ih =>
    obtain ⟨rounds, rfl⟩ := Nat.exists_eq_succ_of_ne_zero (Nat.ne_of_gt (Nat.zero_lt_of_lt enough))
    obtain ⟨token, answered, real⟩ : ∃ token, (lexer.call 0).1 = .ok token ∧ token ≠ .eof := by
      have more := going 0 (Nat.succ_pos last)
      cases answered : (lexer.call 0).1 with
      | error error =>
        rw [answered] at more
        cases more
      | ok token =>
        rw [answered] at more
        exact ⟨token, rfl, of_decide_eq_false more⟩
    have called : lexer.next = (.ok token, lexer.afterCalls 1) :=
      Prod.ext answered (afterSucc lexer 0).symm
    have rest := @ih rounds (lexer.afterCalls 1) (Nat.lt_of_succ_lt_succ enough)
      (fun earlier less => by
        rw [← callShift]
        exact going (earlier + 1) (Nat.succ_lt_succ less))
      (by rw [← callShift]; exact ending)
    have shifted : delivered (lexer.calls (last + 1 + 1)) =
        token :: delivered ((lexer.afterCalls 1).calls (last + 1)) := by
      rw [calls, List.range_succ_eq_map, List.map_cons, List.map_map]
      have others : (lexer.call ∘ Nat.succ) = (lexer.afterCalls 1).call :=
        funext fun earlier => callShift lexer earlier
      have first : lexer.call 0 = (.ok token, lexer.afterCalls 1) := called
      rw [others, first]
      rfl
    rw [drainToken called real, rest, callShift, shifted]
    cases ((lexer.afterCalls 1).call last).1 <;> rfl

end TokenStream

namespace Lexer
open TokenStream

theorem deliveredLength (past : List (Except LexError Token × Lexer)) :
    (delivered past).length ≤ past.length := List.length_filterMap_le _ _

theorem tokensCalls (source : Source) : ∃ last ≤ source.weight,
    isLast ((ofSource source).call last).1 = true ∧
    (∀ earlier < last, isLast ((ofSource source).call earlier).1 = false) ∧
    source.tokens = ((ofSource source).call last).1.map fun _ =>
      delivered ((ofSource source).calls (last + 1)) := by
  obtain ⟨final, within, reached, -⟩ := finalReached (ofSource source)
  have some : ∃ count, isLast ((ofSource source).call count).1 = true := ⟨final, isLastFinal reached⟩
  have bound : Nat.find some ≤ source.weight :=
    Nat.le_trans (Nat.find_min' some (isLastFinal reached)) within
  have going : ∀ earlier < Nat.find some, isLast ((ofSource source).call earlier).1 = false :=
    fun earlier less => by simpa using Nat.find_min some less
  exact ⟨Nat.find some, bound, Nat.find_spec some, going,
    drainCalls (Nat.lt_succ_of_le bound) going (Nat.find_spec some)⟩

theorem callsSettle :
    (∀ (bytes : List UInt8) (lexer : Lexer), start (Source.ofBytes bytes) = .ok lexer →
      ∃ last < bytes.length + 2, isFinal (lexer.results last) = true ∧
        (∀ earlier < last, isFinal (lexer.results earlier) = false) ∧
        ∀ later ≥ last, lexer.results later = lexer.results last ∧
          (lexer.afterCalls later).lineNumber = (lexer.afterCalls last).lineNumber ∧
          (lexer.afterCalls later).level = (lexer.afterCalls last).level ∧
          (lexer.afterCalls later).current = (lexer.afterCalls last).current) ∧
    ∀ text : String, ∃ last < text.utf8ByteSize + 2,
      isLast ((ofSource (.ofString text)).call last).1 = true ∧
      (∀ earlier < last, isLast ((ofSource (.ofString text)).call earlier).1 = false) ∧
      (Source.ofString text).tokens = ((ofSource (.ofString text)).call last).1.map (fun _ =>
        delivered ((ofSource (.ofString text)).calls (last + 1))) ∧
      ∀ tokens, (Source.ofString text).tokens = .ok tokens →
        tokens.length ≤ text.utf8ByteSize + 2 := by
  constructor
  · intro bytes lexer started
    have same := startResults started
    obtain ⟨last, within, final, before⟩ := finalReached (ofSource (Source.ofBytes bytes))
    have weight : (ofSource (Source.ofBytes bytes)).callsLeft ≤ bytes.length + 1 :=
      Source.weightBytes bytes
    refine ⟨last, by omega, by rw [(same last).1]; exact final, fun earlier less => ?_,
      fun later onward => ?_⟩
    · rw [(same earlier).1]
      exact before earlier less
    · rw [(same later).1, (same last).1, (same later).2, (same last).2, callsRepeat final onward]
      exact ⟨rfl, rfl, rfl, rfl⟩
  · intro text
    obtain ⟨last, within, ending, going, read⟩ := tokensCalls (Source.ofString text)
    have size : text.toUTF8.data.toList.length = text.utf8ByteSize := rfl
    have weight : (Source.ofString text).weight ≤ text.utf8ByteSize + 1 := by
      rw [← size]
      exact Source.weightBytes _
    refine ⟨last, by omega, ending, going, read, fun tokens all => ?_⟩
    rw [read] at all
    cases answered : ((ofSource (.ofString text)).call last).1 with
    | error error =>
      rw [answered] at all
      cases all
    | ok token =>
      rw [answered] at all
      cases all
      have short := deliveredLength ((ofSource (.ofString text)).calls (last + 1))
      rw [calls, List.length_map, List.length_range] at short
      exact Nat.le_trans short (by omega)

def broken : List UInt8 := [0x20, 0x20, 0x78, 0x0A, 0xFF, 0x0A, 0x09, 0x79]

theorem callsSettleBroken : ∃ lexer, start (Source.ofBytes broken) = .ok lexer ∧
    lexer.results 3 = .error (.unreadable .invalidText 2) ∧
    ∀ later ≥ 4, lexer.results later = .error (.tabIndent 2) ∧
      (lexer.afterCalls later).level = 1 := by
  have seen : (start (Source.ofBytes broken)).toOption.map (fun lexer =>
      ((List.range 4).all fun count => !isFinal (lexer.results count), lexer.results 3,
        lexer.results 4, (lexer.afterCalls 4).level)) =
      some (true, .error (.unreadable .invalidText 2), .error (.tabIndent 2), 1) := by
    decide +kernel
  cases started : start (Source.ofBytes broken) with
  | error error =>
    rw [started] at seen
    cases seen
  | ok lexer =>
    rw [started] at seen
    have answers := Option.some.inj seen
    simp only [Prod.mk.injEq, List.all_eq_true, List.mem_range, Bool.not_eq_true'] at answers
    obtain ⟨going, third, fourth, level⟩ := answers
    obtain ⟨last, -, final, before, settled⟩ := callsSettle.1 broken lexer started
    obtain rfl : last = 4 := by
      rcases Nat.lt_trichotomy last 4 with less | same | more
      · rw [going last less] at final
        cases final
      · exact same
      · have early := before 4 more
        rw [fourth] at early
        cases early
    refine ⟨lexer, rfl, third, fun later onward => ?_⟩
    obtain ⟨same, -, kept, -⟩ := settled later onward
    exact ⟨same.trans fourth, kept.trans level⟩

end Lexer

end Offside
