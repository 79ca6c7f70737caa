import Mathlib.Data.List.Infix
import Offside.Token.Lexer

/-! What a scan takes from its text. A scan that succeeds takes a spelling of the token it gives, and no
spelling is empty, so a proper end of the text is left. Which kind is found, and that the spelling
is the longest one, is not said here. -/
namespace Offside

namespace Text

theorem longestEntry {α : Type} {text : List Char} {table : List (String × α)} {entry}
    (found : longest? text table = some entry) : entry ∈ table ∧ entry.1.toList <+: text := by
  induction table generalizing entry with
  | nil => simp [longest?] at found
  | cons head rest ih =>
    simp only [longest?] at found
    cases best : longest? text rest with
    | none =>
      simp only [best, Option.ite_none_right_eq_some, List.isPrefixOf_iff_prefix] at found
      obtain ⟨matched, same⟩ := found
      cases Option.some.inj same
      exact ⟨List.mem_cons_self, matched⟩
    | some other =>
      have inside := ih best
      simp only [best] at found
      split at found
      · rename_i longer
        cases Option.some.inj found
        simp only [Bool.and_eq_true, List.isPrefixOf_iff_prefix] at longer
        exact ⟨List.mem_cons_self, longer.1⟩
      · cases Option.some.inj found
        exact ⟨List.mem_cons_of_mem _ inside.1, inside.2⟩

theorem splitPatternParts {α : Type} {table : List (String × α)} {text rest : List Char} {value : α}
    (found : splitPattern? table text = some (value, rest)) :
    ∃ pattern, (pattern, value) ∈ table ∧ pattern.toList ++ rest = text := by
  simp only [splitPattern?, Option.map_eq_some_iff, Prod.mk.injEq] at found
  obtain ⟨⟨pattern, value⟩, best, rfl, rfl⟩ := found
  obtain ⟨member, rest, rfl⟩ := longestEntry best
  refine ⟨pattern, member, ?_⟩
  rw [← String.length_toList, List.drop_left]

theorem splitWordParts {α : Type} {table : List (String × α)} {text rest : List Char} {value : α}
    (found : splitWord? table text = some (value, rest)) :
    splitPattern? table text = some (value, rest) := by
  unfold splitWord? at found
  split at found
  · rename_i pattern
    split at found
    · contradiction
    · cases Option.some.inj found
      exact pattern
  · exact found

theorem splitQuotedParts {mark : Char} {text content rest : List Char}
    (found : splitQuoted mark text = .closed content rest) :
    mark :: content ++ mark :: rest = text := by
  cases text with
  | nil => simp [splitQuoted] at found
  | cons c body =>
    simp only [splitQuoted] at found
    split at found
    · rename_i opening
      have start : c = mark := by simpa using opening
      cases tail : body.dropWhile (· != mark) with
      | nil => simp [tail] at found
      | cons last more =>
        simp only [tail, Quotation.closed.injEq] at found
        obtain ⟨rfl, rfl⟩ := found
        have closing : last = mark := by
          have stop := List.head?_dropWhile_not (· != mark) body
          rw [tail] at stop
          simpa using stop
        have parts := List.takeWhile_append_dropWhile (p := (· != mark)) (l := body)
        rw [tail, closing] at parts
        simp [start, parts]
    · contradiction

theorem splitNameLetters {text name rest : List Char}
    (found : splitName? text = some (name, rest)) :
    ∃ c tail, name = c :: tail ∧ isNameStart c = true ∧ tail.all isNameChar = true := by
  cases text with
  | nil => contradiction
  | cons c tail =>
    simp only [splitName?] at found
    split at found
    · rename_i start
      cases Option.some.inj found
      exact ⟨c, _, rfl, start, List.all_takeWhile⟩
    · contradiction

end Text

namespace Token

/- The texts that stand for a token in a line. Tokens of the layout have none. -/
inductive Spelled : Token → List Char → Prop where
  | number {digits : List Char} {value : Int64} (nonempty : digits ≠ [])
      (decimal : digits.all Char.isDigit = true)
      (exact : Integer.ofDigits? digits = some value) : Spelled (.number value) digits
  | keyword (word : Keyword) : Spelled (.keyword word) word.spelling.toList
  | identifier {c : Char} {tail : List Char} (start : Text.isNameStart c = true)
      (letters : tail.all Text.isNameChar = true) :
      Spelled (.identifier (String.ofList (c :: tail))) (c :: tail)
  | comparison {pattern : String} {token : Token} (member : (pattern, token) ∈ comparisonTable) :
      Spelled token pattern.toList
  | symbol {c : Char} (known : c ∈ symbols) : Spelled (.char c) [c]
  | quoted {mark : Char} (content : List Char)
      (either : mark = quotationMarks.1 ∨ mark = quotationMarks.2) :
      Spelled (.string (String.ofList content)) (mark :: content ++ [mark])

def isLayout : Token → Bool
  | newline | indent | dedent | eof => true
  | _ => false

theorem keywordEntry {pattern : String} {token : Token} (member : (pattern, token) ∈ keywordTable) :
    ∃ word : Keyword, pattern = word.spelling ∧ token = .keyword word := by
  obtain ⟨word, _, same⟩ := List.mem_map.mp member
  cases same
  exact ⟨word, rfl, rfl⟩

theorem comparisonEntries :
    ∀ entry ∈ comparisonTable, entry.1.toList ≠ [] ∧ entry.2.isLayout = false := by decide

theorem spelledNonempty {token : Token} {spelling : List Char} (spelled : Spelled token spelling) :
    spelling ≠ [] := by
  cases spelled with
  | number nonempty => exact nonempty
  | keyword word => cases word <;> decide
  | comparison member => exact (comparisonEntries _ member).1
  | identifier | symbol | quoted => simp

theorem spelledSolid {token : Token} {spelling : List Char} (spelled : Spelled token spelling) :
    token.isLayout = false := by
  cases spelled with
  | comparison member => exact (comparisonEntries _ member).2
  | number | keyword | identifier | symbol | quoted => rfl

theorem scanQuotedSpelled {text rest : List Char} {line : Nat} {token : Token}
    (scanned : scanQuoted text line = .ok (token, rest)) :
    ∃ spelling, Spelled token spelling ∧ spelling ++ rest = text := by
  unfold scanQuoted at scanned
  split at scanned
  · rename_i found
    cases Except.ok.inj scanned
    exact ⟨_, .quoted _ (.inl rfl), by simpa using Text.splitQuotedParts found⟩
  · contradiction
  · split at scanned
    · rename_i found
      cases Except.ok.inj scanned
      exact ⟨_, .quoted _ (.inr rfl), by simpa using Text.splitQuotedParts found⟩
    · contradiction
    · contradiction

theorem scanSpelled {text rest : List Char} {line : Nat} {token : Token}
    (scanned : scan text line = .ok (token, rest)) :
    ∃ spelling, Spelled token spelling ∧ spelling ++ rest = text := by
  unfold scan at scanned
  split at scanned
  · rename_i digits after number
    obtain ⟨parts, nonempty, decimal⟩ := Text.splitNumberParts number
    split at scanned
    · rename_i exact
      cases Except.ok.inj scanned
      exact ⟨digits, .number nonempty decimal exact, parts⟩
    · cases scanned
  split at scanned
  · rename_i found
    cases Except.ok.inj scanned
    obtain ⟨pattern, member, parts⟩ := Text.splitPatternParts (Text.splitWordParts found)
    obtain ⟨word, rfl, rfl⟩ := keywordEntry member
    exact ⟨_, .keyword word, parts⟩
  split at scanned
  · rename_i letters after name
    cases Except.ok.inj scanned
    have parts := Text.splitNameParts name
    obtain ⟨c, tail, rfl, start, more⟩ := Text.splitNameLetters name
    exact ⟨_, .identifier start more, parts.1⟩
  split at scanned
  · rename_i comparison
    cases Except.ok.inj scanned
    obtain ⟨pattern, member, parts⟩ := Text.splitPatternParts comparison
    exact ⟨_, .comparison member, parts⟩
  split at scanned
  · rename_i c tail _ _ _ _
    split at scanned
    · rename_i known
      cases Except.ok.inj scanned
      exact ⟨[c], .symbol known, rfl⟩
    · exact scanQuotedSpelled scanned
  · exact scanQuotedSpelled scanned

inductive ScanFailure (line : Nat) : LexError → Prop where
  | tooLarge (digits : List Char) : ScanFailure line (.integerTooLarge digits line)
  | openString : ScanFailure line (.openString line)
  | unrecognized (text : List Char) : ScanFailure line (.unrecognized text line)

theorem scanQuotedFails {text : List Char} {line : Nat} {error : LexError}
    (failed : scanQuoted text line = .error error) : ScanFailure line error := by
  unfold scanQuoted at failed
  split at failed
  · cases failed
  · cases failed
    exact .openString
  · split at failed
    · cases failed
    · cases failed
      exact .openString
    · cases failed
      exact .unrecognized text

theorem scanFails {text : List Char} {line : Nat} {error : LexError}
    (failed : scan text line = .error error) : ScanFailure line error := by
  unfold scan at failed
  split at failed
  · split at failed
    · cases failed
    · cases failed
      exact .tooLarge _
  split at failed
  · cases failed
  split at failed
  · cases failed
  split at failed
  · cases failed
  split at failed
  · split at failed
    · cases failed
    · exact scanQuotedFails failed
  · exact scanQuotedFails failed

theorem scanShorter {text rest : List Char} {line : Nat} {token : Token}
    (scanned : scan text line = .ok (token, rest)) : rest.length < text.length := by
  obtain ⟨spelling, spelled, rfl⟩ := scanSpelled scanned
  have positive := List.length_pos_iff.mpr (spelledNonempty spelled)
  simp only [List.length_append]
  omega

theorem scanSolid {text rest : List Char} {line : Nat} {token : Token}
    (scanned : scan text line = .ok (token, rest)) : token.isLayout = false := by
  obtain ⟨spelling, spelled, _⟩ := scanSpelled scanned
  exact spelledSolid spelled

end Token

end Offside
