import Offside.Proofs.Execution.Numerals
import Offside.Proofs.Text.Splitting

/-! Which token a text starts with. Letters make a keyword or a name by their longest run, digits a number
by theirs, and a sign with `=` behind it is a comparison. There is no token where a quotation is not
closed, where a number is too large, and where the first character is one that starts none. -/
namespace Offside.Token
open Text

variable {c : Char} {text rest : List Char} {line : Nat}

theorem scanLetters (start : isNameStart c = true) (tail : List Char) (line : Nat) :
    ∃ name rest, LongestRun isNameChar (c :: tail) name rest ∧
      (∀ word : Keyword, name = word.spelling.toList →
        scan (c :: tail) line = .ok (.keyword word, rest)) ∧
      ((∀ word : Keyword, name ≠ word.spelling.toList) →
        scan (c :: tail) line = .ok (.identifier (String.ofList name), rest)) := by
  have run : LongestRun isNameChar (c :: tail) (c :: tail.takeWhile isNameChar)
      (tail.dropWhile isNameChar) := by
    rw [longestRunTaken]
    simp [nameStartChar start]
  have named : isName (c :: tail.takeWhile isNameChar) = true := by simp [isName, start]
  obtain ⟨parts, -, stops⟩ := longestRunStops.mp run
  refine ⟨_, _, run, fun word same => ?_, fun free => ?_⟩
  · rw [← parts, same]
    exact scanKeyword word line stops
  · have unlisted : String.ofList (c :: tail.takeWhile isNameChar) ∉
        Keyword.all.map Keyword.spelling := by
      intro listed
      obtain ⟨word, -, same⟩ := List.mem_map.mp listed
      exact free word (by rw [same, String.toList_ofList])
    rw [← parts]
    exact scanName line named unlisted stops

theorem scanDigits (digit : c.isDigit = true) (tail : List Char) (line : Nat) :
    ∃ digits rest, LongestRun Char.isDigit (c :: tail) digits rest ∧
      (Integer.decimal digits ≤ 2 ^ 63 - 1 → ∃ word : Int64, word.toInt = Integer.decimal digits ∧
        scan (c :: tail) line = .ok (.number word, rest)) ∧
      (2 ^ 63 - 1 < Integer.decimal digits →
        scan (c :: tail) line = .error (.integerTooLarge digits line)) := by
  have run : LongestRun Char.isDigit (c :: tail) (c :: tail.takeWhile Char.isDigit)
      (tail.dropWhile Char.isDigit) := by
    rw [longestRunTaken]
    simp [digit]
  have numeral : Numeral (c :: tail.takeWhile Char.isDigit) := ⟨List.cons_ne_nil _ _, run.inside⟩
  obtain ⟨parts, -, stops⟩ := longestRunStops.mp run
  refine ⟨_, _, run, fun fits => ?_, fun large => ?_⟩
  · obtain ⟨word, exact, read⟩ := Integer.ofDigitsExact fits
    refine ⟨word, exact, ?_⟩
    rw [← parts]
    exact scanNumeral numeral stops line read
  · rw [← parts]
    exact scanTooLarge numeral stops line (Integer.ofDigitsTooLarge large)

def comparisons : List (Char × Token) :=
  [('=', eq), ('!', notEq), ('<', lessOrEq), ('>', greaterOrEq)]

theorem scanComparison {token : Token} (member : (c, token) ∈ comparisons) (rest : List Char)
    (line : Nat) : scan (c :: '=' :: rest) line = .ok (token, rest) := by
  simp only [comparisons, List.mem_cons, Prod.mk.injEq, List.not_mem_nil, or_false] at member
  rcases member with ⟨rfl, rfl⟩ | ⟨rfl, rfl⟩ | ⟨rfl, rfl⟩ | ⟨rfl, rfl⟩ <;> exact scanMark rfl rfl

theorem numberValue {value : Int64} (scanned : scan text line = .ok (.number value, rest)) :
    ∃ digits, LongestRun Char.isDigit text digits rest ∧ value.toInt = Integer.decimal digits := by
  obtain ⟨spelling, spelled, parts⟩ := scanSpelled scanned
  obtain ⟨c, tail, rfl, digit⟩ : ∃ c tail, text = c :: tail ∧ c.isDigit = true := by
    cases spelled with
    | number nonempty decimal =>
      obtain ⟨c, more, rfl⟩ := List.exists_cons_of_ne_nil nonempty
      exact ⟨c, _, parts.symm, List.all_eq_true.mp decimal c List.mem_cons_self⟩
    | comparison member => simp [comparisonTable] at member
  obtain ⟨digits, after, run, fitting, large⟩ := scanDigits digit tail line
  rcases Nat.lt_or_ge (2 ^ 63 - 1) (Integer.decimal digits) with exceeds | fits
  · rw [large exceeds] at scanned
    cases scanned
  · obtain ⟨word, exact, found⟩ := fitting fits
    rw [found] at scanned
    cases scanned
    exact ⟨digits, run, exact⟩

structure Unread (text : List Char) : Prop where
  first : ∀ c ∈ text.head?, c.isDigit = false ∧ isNameStart c = false ∧ c ∉ symbols
  unequal : ¬ ['!', '='] <+: text

theorem Unread.comparison (unread : Unread text) : splitPattern? comparisonTable text = none := by
  cases found : splitPattern? comparisonTable text with
  | none => rfl
  | some pair =>
    obtain ⟨pattern, member, parts⟩ := splitPatternParts found
    have begins : pattern.toList <+: text := ⟨_, parts⟩
    have sign : ∀ c ∈ symbols, ¬ [c, '='] <+: text := by
      intro c known opened
      obtain ⟨more, rfl⟩ := opened
      exact (unread.first c rfl).2.2 known
    simp only [comparisonTable, List.mem_cons, Prod.mk.injEq, List.not_mem_nil, or_false] at member
    rcases member with ⟨rfl, -⟩ | ⟨rfl, -⟩ | ⟨rfl, -⟩ | ⟨rfl, -⟩
    · exact absurd begins (sign '=' (by decide))
    · exact absurd begins unread.unequal
    · exact absurd begins (sign '<' (by decide))
    · exact absurd begins (sign '>' (by decide))

theorem Unread.scan (unread : Unread text) (line : Nat) : scan text line = scanQuoted text line := by
  cases text with
  | nil => rfl
  | cons c tail =>
    obtain ⟨noDigit, noName, unknown⟩ := unread.first c rfl
    rw [scanMark noDigit noName, unread.comparison]
    exact if_neg unknown

theorem scanReads (read : ¬ Unread text) (line : Nat) : (∃ found, scan text line = .ok found) ∨
    ∃ digits, scan text line = .error (.integerTooLarge digits line) := by
  cases text with
  | nil => exact absurd ⟨by simp, by simp⟩ read
  | cons c tail =>
    by_cases digit : c.isDigit = true
    · obtain ⟨digits, rest, -, fitting, large⟩ := scanDigits digit tail line
      rcases Nat.lt_or_ge (2 ^ 63 - 1) (Integer.decimal digits) with exceeds | fits
      · exact .inr ⟨digits, large exceeds⟩
      · obtain ⟨word, -, scanned⟩ := fitting fits
        exact .inl ⟨_, scanned⟩
    by_cases start : isNameStart c = true
    · obtain ⟨name, rest, -, reserved, free⟩ := scanLetters start tail line
      by_cases keyword : ∃ word : Keyword, name = word.spelling.toList
      · obtain ⟨word, same⟩ := keyword
        exact .inl ⟨_, reserved word same⟩
      · exact .inl ⟨_, free fun word same => keyword ⟨word, same⟩⟩
    rw [scanMark (by simpa using digit) (by simpa using start)]
    cases found : splitPattern? comparisonTable (c :: tail) with
    | some pair => exact .inl ⟨pair, rfl⟩
    | none =>
      by_cases known : c ∈ symbols
      · exact .inl ⟨_, if_pos known⟩
      · refine absurd ⟨fun first head => ?_, fun unequal => ?_⟩ read
        · cases head
          exact ⟨by simpa using digit, by simpa using start, known⟩
        · have matched : (splitPattern? comparisonTable (c :: tail)).isSome = true :=
            splitPatternSome.mpr ⟨("!=", notEq), by decide, unequal⟩
          rw [found] at matched
          cases matched

def isMark (c : Char) : Bool := c == quotationMarks.1 || c == quotationMarks.2

theorem markCases {mark : Char} (either : isMark mark = true) : mark = '\'' ∨ mark = '"' := by
  simpa [isMark, quotationMarks] using either

theorem unreadMark {mark : Char} (either : isMark mark = true) (body : List Char) :
    Unread (mark :: body) := by
  refine ⟨fun c head => ?_, fun unequal => ?_⟩
  · cases head
    rcases markCases either with rfl | rfl <;> decide
  · rcases markCases either with rfl | rfl <;> simp at unequal

theorem scanQuotedMark {mark : Char} (either : isMark mark = true) (body : List Char) (line : Nat) :
    scanQuoted (mark :: body) line =
      match splitQuoted mark (mark :: body) with
      | .closed content rest => .ok (.string (String.ofList content), rest)
      | .unterminated => .error (.openString line)
      | .absent => .error (.unrecognized (mark :: body) line) := by
  rcases markCases either with rfl | rfl <;> rfl

theorem scanQuotedUnmarked (unmarked : ∀ c ∈ text.head?, isMark c = false) (line : Nat) :
    scanQuoted text line = .error (.unrecognized text line) := by
  cases text with
  | nil => rfl
  | cons c tail =>
    have other := unmarked c rfl
    simp only [isMark, Bool.or_eq_false_iff] at other
    simp only [scanQuoted, splitQuoted, other.1, other.2]
    rfl

theorem scanClosed {mark : Char} {content : List Char} (either : isMark mark = true)
    (free : mark ∉ content) (rest : List Char) (line : Nat) :
    scan (mark :: content ++ mark :: rest) line = .ok (.string (String.ofList content), rest) := by
  rw [List.cons_append, (unreadMark either _).scan, scanQuotedMark either, ← List.cons_append,
    splitQuotedWhole rest free]

theorem scanOpen {mark : Char} {body : List Char} (either : isMark mark = true) (free : mark ∉ body)
    (line : Nat) : scan (mark :: body) line = .error (.openString line) := by
  rw [(unreadMark either body).scan, scanQuotedMark either, splitQuotedOpen.mpr ⟨body, rfl, free⟩]

def OpenQuotation (text : List Char) : Prop :=
  ∃ mark body, isMark mark = true ∧ mark ∉ body ∧ text = mark :: body

structure Unknown (text : List Char) : Prop extends Unread text where
  unmarked : ∀ c ∈ text.head?, isMark c = false

theorem scanFailure {error : LexError} (failed : scan text line = .error error) :
    (∃ digits, error = .integerTooLarge digits line) ∨
      error = .openString line ∧ OpenQuotation text ∨
      error = .unrecognized text line ∧ Unknown text := by
  by_cases unread : Unread text
  · by_cases marked : ∃ mark body, isMark mark = true ∧ text = mark :: body
    · obtain ⟨mark, body, either, rfl⟩ := marked
      by_cases recurs : mark ∈ body
      · obtain ⟨content, rest, rfl, free⟩ := List.eq_append_cons_of_mem recurs
        rw [← List.cons_append, scanClosed either free] at failed
        cases failed
      · rw [scanOpen either recurs] at failed
        cases failed
        exact .inr (.inl ⟨rfl, mark, body, either, recurs, rfl⟩)
    · have unmarked : ∀ c ∈ text.head?, isMark c = false := by
        intro c head
        by_contra other
        obtain ⟨tail, rfl⟩ := List.head?_eq_some_iff.mp head
        exact marked ⟨c, tail, eq_true_of_ne_false other, rfl⟩
      rw [unread.scan, scanQuotedUnmarked unmarked] at failed
      cases failed
      exact .inr (.inr ⟨rfl, unread, unmarked⟩)
  · rcases scanReads unread line with ⟨found, scanned⟩ | ⟨digits, large⟩
    · rw [scanned] at failed
      cases failed
    · rw [large] at failed
      cases failed
      exact .inl ⟨digits, rfl⟩

theorem openExactly {other : Nat} :
    scan text line = .error (.openString other) ↔ other = line ∧ OpenQuotation text := by
  constructor
  · intro failed
    rcases scanFailure failed with ⟨_, same⟩ | ⟨same, unclosed⟩ | ⟨same, -⟩ <;> cases same
    exact ⟨rfl, unclosed⟩
  · rintro ⟨rfl, mark, body, either, free, rfl⟩
    exact scanOpen either free other

theorem unknownExactly {remainder : List Char} {other : Nat} :
    scan text line = .error (.unrecognized remainder other) ↔
      remainder = text ∧ other = line ∧ Unknown text := by
  constructor
  · intro failed
    rcases scanFailure failed with ⟨_, same⟩ | ⟨same, -⟩ | ⟨same, unknown⟩ <;> cases same
    exact ⟨rfl, rfl, unknown⟩
  · rintro ⟨rfl, rfl, unknown⟩
    rw [unknown.scan, scanQuotedUnmarked unknown.unmarked]

theorem scanTakes {token : Token} (scanned : scan text line = .ok (token, rest)) :
    (String.ofList rest).utf8ByteSize < (String.ofList text).utf8ByteSize := by
  obtain ⟨spelling, spelled, rfl⟩ := scanSpelled scanned
  have some : String.ofList spelling ≠ "" := by
    intro none
    refine spelledNonempty spelled ?_
    rw [← String.toList_ofList (l := spelling), none]
    rfl
  have positive : (String.ofList spelling).utf8ByteSize ≠ 0 := fun zero =>
    some (String.utf8ByteSize_eq_zero_iff.mp zero)
  rw [String.ofList_append, String.utf8ByteSize_append]
  omega

/-- A scan takes a spelling of its token, and never stops short of the longest one: words, numbers,
comparisons and quotations are taken whole. It fails on a quotation that does not end and on a text
that no token starts with, and besides only on a number that is too large. -/
theorem scanExactly (text : List Char) (line : Nat) :
    (∀ token rest, scan text line = .ok (token, rest) →
      (String.ofList rest).utf8ByteSize < (String.ofList text).utf8ByteSize ∧
      ∃ spelling, Spelled token spelling ∧ spelling ++ rest = text) ∧
    (∀ value rest, scan text line = .ok (.number value, rest) →
      ∃ digits, LongestRun Char.isDigit text digits rest ∧ value.toInt = Integer.decimal digits) ∧
    (∀ c ∈ text.head?, isNameStart c = true → ∃ name rest, LongestRun isNameChar text name rest ∧
      (∀ word : Keyword, name = word.spelling.toList → scan text line = .ok (.keyword word, rest)) ∧
      ((∀ word : Keyword, name ≠ word.spelling.toList) →
        scan text line = .ok (.identifier (String.ofList name), rest))) ∧
    (∀ c ∈ text.head?, c.isDigit = true → ∃ digits rest, LongestRun Char.isDigit text digits rest ∧
      (Integer.decimal digits ≤ 2 ^ 63 - 1 → ∃ word : Int64, word.toInt = Integer.decimal digits ∧
        scan text line = .ok (.number word, rest)) ∧
      (2 ^ 63 - 1 < Integer.decimal digits →
        scan text line = .error (.integerTooLarge digits line))) ∧
    (∀ c token rest, (c, token) ∈ comparisons → text = c :: '=' :: rest →
      scan text line = .ok (token, rest)) ∧
    (∀ mark content rest, isMark mark = true → mark ∉ content →
      text = mark :: content ++ mark :: rest →
      scan text line = .ok (.string (String.ofList content), rest)) ∧
    (∀ other, scan text line = .error (.openString other) ↔ other = line ∧ OpenQuotation text) ∧
    ∀ remainder other, scan text line = .error (.unrecognized remainder other) ↔
      remainder = text ∧ other = line ∧ Unknown text := by
  refine ⟨fun token rest scanned => ⟨scanTakes scanned, scanSpelled scanned⟩,
    fun value rest => numberValue, fun c head start => ?_, fun c head digit => ?_, ?_, ?_,
    fun other => openExactly, fun remainder other => unknownExactly⟩
  · obtain ⟨tail, rfl⟩ := List.head?_eq_some_iff.mp head
    exact scanLetters start tail line
  · obtain ⟨tail, rfl⟩ := List.head?_eq_some_iff.mp head
    exact scanDigits digit tail line
  · rintro c token rest member rfl
    exact scanComparison member rest line
  · rintro mark content rest either free rfl
    exact scanClosed either free rest line

theorem scanExactlyGlued :
    scan "printer=='".toList 3 = .ok (.identifier "printer", "=='".toList) ∧
    scan "=='".toList 3 = .ok (.eq, ['\'']) ∧ scan ['\''] 3 = .error (.openString 3) := by
  obtain ⟨-, -, letters, -⟩ := scanExactly "printer=='".toList 3
  obtain ⟨-, -, -, -, compared, -⟩ := scanExactly "=='".toList 3
  obtain ⟨-, -, -, -, -, -, unclosed, -⟩ := scanExactly ['\''] 3
  obtain ⟨name, rest, run, -, free⟩ := letters 'p' rfl rfl
  obtain ⟨rfl, rfl⟩ := longestRunTaken.mp run
  refine ⟨free fun word => ?_, compared '=' .eq ['\''] (by decide) rfl, ?_⟩
  · cases word <;> decide
  · exact (unclosed 3).mpr ⟨rfl, '\'', [], rfl, by simp, rfl⟩

end Offside.Token
