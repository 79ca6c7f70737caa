import Offside.Proofs.Token.Scan

/-! How tokens are written. Every token that can stand in a line has a spelling. Where a space or the end
of the line comes behind it, a scan takes the spelling whole and gives the token back; and whatever a
scan gives is a token that can be written. -/
namespace Offside

namespace Text

def isName : List Char → Bool
  | [] => false
  | c :: tail => isNameStart c && tail.all isNameChar

def Stops (kind : Char → Bool) (rest : List Char) : Prop := ∀ c ∈ rest.head?, kind c = false

theorem stopsNil (kind : Char → Bool) : Stops kind [] := fun _ first => by cases first

structure Numeral (digits : List Char) : Prop where
  nonempty : digits ≠ []
  decimal : ∀ c ∈ digits, c.isDigit = true

theorem numeralOf (magnitude : Nat) : Numeral (Nat.toDigits 10 magnitude) where
  nonempty := Nat.toDigits_ne_nil
  decimal _ member := Nat.isDigit_of_mem_toDigits (by decide) (by decide) member

theorem takeUpTo {kind : Char → Bool} {front rest : List Char}
    (all : ∀ c ∈ front, kind c = true) (stops : Stops kind rest) :
    (front ++ rest).takeWhile kind = front ∧ (front ++ rest).dropWhile kind = rest := by
  rw [List.takeWhile_append_of_pos all, List.dropWhile_append_of_pos all]
  cases rest with
  | nil => exact ⟨List.append_nil front, rfl⟩
  | cons c tail =>
    have other : ¬ kind c = true := by simp [stops c rfl]
    rw [List.takeWhile_cons_of_neg other, List.dropWhile_cons_of_neg other, List.append_nil]
    exact ⟨rfl, rfl⟩

theorem stopsDropWhile (kind : Char → Bool) (text : List Char) :
    Stops kind (text.dropWhile kind) := by
  intro c first
  have stop := List.head?_dropWhile_not kind text
  rw [Option.mem_def.mp first] at stop
  exact stop

theorem nameStartChar {c : Char} (start : isNameStart c = true) : isNameChar c = true := by
  simp only [isNameStart, Bool.or_eq_true] at start
  simp only [isNameChar, Char.isAlphanum, Bool.or_eq_true]
  exact start.imp_right .inl

theorem letterCode {c : Char} (letter : c.isAlpha = true) :
    65 ≤ c.toNat ∧ c.toNat ≤ 90 ∨ 97 ≤ c.toNat ∧ c.toNat ≤ 122 := by
  change (decide (65 ≤ c.val ∧ c.val ≤ 90) ||
    decide (97 ≤ c.val) && decide (c.val ≤ 122)) = true at letter
  simp only [Bool.or_eq_true, Bool.and_eq_true, decide_eq_true_eq,
    UInt32.le_iff_toNat_le] at letter
  exact letter

theorem digitCode {c : Char} : c.isDigit = true ↔ 48 ≤ c.toNat ∧ c.toNat ≤ 57 := by
  simp only [Char.isDigit, Bool.and_eq_true, decide_eq_true_eq, UInt32.le_iff_toNat_le, ge_iff_le]
  rfl

theorem nameStartDigit {c : Char} (start : isNameStart c = true) : c.isDigit = false := by
  simp only [isNameStart, Bool.or_eq_true, beq_iff_eq] at start
  rcases start with rfl | letter
  · decide
  · have code := letterCode letter
    by_contra digit
    have other := digitCode.mp (eq_true_of_ne_false digit)
    omega

theorem digitChar {c : Char} (digit : c.isDigit = true) : isNameChar c = true := by
  simp [isNameChar, Char.isAlphanum, digit]

theorem nameCharSolid {c : Char} (letter : isNameChar c = true) : isBlankChar c = false := by
  simp only [isNameChar, Char.isAlphanum, Bool.or_eq_true, beq_iff_eq] at letter
  rcases letter with rfl | letter | digit
  · decide
  · have code := letterCode letter
    simp [isBlankChar, blankRanges]
    omega
  · have code := digitCode.mp digit
    simp [isBlankChar, blankRanges]
    omega

theorem nameLetters {name : List Char} (named : isName name = true) :
    ∀ c ∈ name, isNameChar c = true := by
  cases name with
  | nil => simp
  | cons c tail =>
    simp only [isName, Bool.and_eq_true, List.all_eq_true] at named
    exact List.forall_mem_cons.mpr ⟨nameStartChar named.1, named.2⟩

theorem numeralSolid {digits : List Char} (numeral : Numeral digits) :
    ∀ c ∈ digits, isBlankChar c = false :=
  fun c member => nameCharSolid (digitChar (numeral.decimal c member))

theorem splitNumberWhole {digits rest : List Char} (numeral : Numeral digits)
    (stops : Stops Char.isDigit rest) : splitNumber? (digits ++ rest) = some (digits, rest) := by
  obtain ⟨taken, left⟩ := takeUpTo numeral.decimal stops
  unfold splitNumber?
  rw [taken, left]
  cases digits with
  | nil => exact absurd rfl numeral.nonempty
  | cons first others => rfl

theorem splitNumberAbsent {c : Char} {rest : List Char} (other : c.isDigit = false) :
    splitNumber? (c :: rest) = none := by
  rw [splitNumber?, List.takeWhile_cons_of_neg (by simp [other])]

theorem splitNameWhole {name rest : List Char} (named : isName name = true)
    (stops : Stops isNameChar rest) : splitName? (name ++ rest) = some (name, rest) := by
  cases name with
  | nil => cases named
  | cons c tail =>
    simp only [isName, Bool.and_eq_true, List.all_eq_true] at named
    obtain ⟨taken, left⟩ := takeUpTo named.2 stops
    rw [List.cons_append, splitName?, if_pos named.1, taken, left]

theorem splitNameAbsent {c : Char} {rest : List Char} (other : isNameStart c = false) :
    splitName? (c :: rest) = none := by
  rw [splitName?, if_neg (by simp [other])]

theorem splitQuotedWhole {mark : Char} {content : List Char} (rest : List Char)
    (free : mark ∉ content) :
    splitQuoted mark (mark :: content ++ mark :: rest) = .closed content rest := by
  have inside : ∀ c ∈ content, (c != mark) = true := fun c member => by
    simpa using fun same : c = mark => free (same ▸ member)
  have closing : Stops (· != mark) (mark :: rest) := fun c first => by
    cases first
    simp
  obtain ⟨taken, left⟩ := takeUpTo inside closing
  rw [List.cons_append, splitQuoted, if_pos (beq_self_eq_true mark), taken, left]

theorem splitQuotedFree {mark : Char} {text content rest : List Char}
    (found : splitQuoted mark text = .closed content rest) : mark ∉ content := by
  cases text with
  | nil => cases found
  | cons c body =>
    simp only [splitQuoted] at found
    split at found
    · split at found
      · cases found
      · cases found
        intro member
        simpa using List.all_eq_true.mp List.all_takeWhile mark member
    · cases found

end Text

theorem Integer.textDigits (number : Int64) :
    0 ≤ number.toInt ∧ (text number).toList = Nat.toDigits 10 number.toInt.natAbs ∨
      number.toInt < 0 ∧ (text number).toList = '-' :: Nat.toDigits 10 number.toInt.natAbs := by
  unfold text
  cases number.toInt with
  | ofNat magnitude => exact .inl ⟨Int.natCast_nonneg magnitude, String.toList_ofList⟩
  | negSucc predecessor => exact .inr ⟨Int.negSucc_lt_zero predecessor, String.toList_ofList⟩

namespace Token
open Text

def Writable : Token → Prop
  | number value => 0 ≤ value.toInt
  | identifier name => isName name.toList = true ∧ name ∉ Keyword.all.map Keyword.spelling
  | string content => '\n' ∉ content.toList ∧
      (quotationMarks.1 ∉ content.toList ∨ quotationMarks.2 ∉ content.toList)
  | char symbol => symbol ∈ symbols
  | keyword _ | eq | notEq | lessOrEq | greaterOrEq => True
  | newline | indent | dedent | eof => False

instance : DecidablePred Writable := fun token => by
  cases token <;> unfold Writable <;> infer_instance

def markFor (content : List Char) : Char :=
  if quotationMarks.1 ∈ content then quotationMarks.2 else quotationMarks.1

def spelling : Token → List Char
  | number value => (Integer.text value).toList
  | identifier name => name.toList
  | char symbol => [symbol]
  | string content => markFor content.toList :: content.toList ++ [markFor content.toList]
  | keyword word => word.spelling.toList
  | eq => ['=', '=']
  | notEq => ['!', '=']
  | lessOrEq => ['<', '=']
  | greaterOrEq => ['>', '=']
  | newline | indent | dedent | eof => []

theorem keywordLetters (word : Keyword) : isName word.spelling.toList = true := by
  cases word <;> decide

theorem keywordListed (word : Keyword) : word.spelling ∈ Keyword.all.map Keyword.spelling :=
  List.mem_map_of_mem word.memAll

/- No keyword begins another one, so the longest pattern is the keyword itself. -/
theorem keywordFound (word : Keyword) (rest : List Char) :
    splitPattern? keywordTable (word.spelling.toList ++ rest) = some (.keyword word, rest) := by
  cases word <;> rfl

theorem keywordWhole (word : Keyword) {rest : List Char} (stops : Stops isNameChar rest) :
    splitWord? keywordTable (word.spelling.toList ++ rest) = some (.keyword word, rest) := by
  unfold splitWord?
  rw [keywordFound]
  cases rest with
  | nil => rfl
  | cons c tail =>
    have other : ¬ isNameChar c = true := by simp [stops c rfl]
    dsimp only
    rw [if_neg other]

/- A keyword that is found at the start of a name is the name, or has a letter of the name behind
it. -/
theorem keywordAbsent {name rest : List Char} (named : isName name = true)
    (free : String.ofList name ∉ Keyword.all.map Keyword.spelling) (stops : Stops isNameChar rest) :
    splitWord? keywordTable (name ++ rest) = none := by
  cases found : splitWord? keywordTable (name ++ rest) with
  | none => rfl
  | some entry =>
    obtain ⟨token, after⟩ := entry
    obtain ⟨pattern, member, parts⟩ := splitPatternParts (splitWordParts found)
    obtain ⟨word, rfl, rfl⟩ := keywordEntry member
    have ended : Stops isNameChar after := by
      intro c first
      obtain ⟨tail, rfl⟩ : ∃ tail, after = c :: tail := by
        cases after <;> cases first
        exact ⟨_, rfl⟩
      rw [← parts, splitWord?, keywordFound] at found
      dsimp only at found
      split at found
      · cases found
      · simpa using ‹¬ isNameChar c = true›
    have same : word.spelling.toList = name :=
      (takeUpTo (nameLetters (keywordLetters word)) ended).1.symm.trans
        ((congrArg _ parts).trans (takeUpTo (nameLetters named) stops).1)
    rw [← same, String.ofList_toList] at free
    exact absurd (keywordListed word) free

theorem noKeyword {c : Char} {rest : List Char} (other : isNameStart c = false) :
    splitWord? keywordTable (c :: rest) = none := by
  cases found : splitWord? keywordTable (c :: rest) with
  | none => rfl
  | some entry =>
    obtain ⟨pattern, member, parts⟩ := splitPatternParts (splitWordParts found)
    obtain ⟨word, rfl, -⟩ := keywordEntry member
    have letters := keywordLetters word
    cases spelled : word.spelling.toList with
    | nil => rw [spelled] at letters; cases letters
    | cons first tail =>
      rw [spelled] at parts letters
      obtain ⟨rfl, -⟩ := List.cons.inj parts
      simp [isName, other] at letters

theorem scanMark {c : Char} {rest : List Char} {line : Nat} (noDigit : c.isDigit = false)
    (noName : isNameStart c = false) :
    scan (c :: rest) line =
      match splitPattern? comparisonTable (c :: rest) with
      | some found => .ok found
      | none => if c ∈ symbols then .ok (.char c, rest) else scanQuoted (c :: rest) line := by
  unfold scan
  rewrite [splitNumberAbsent noDigit, noKeyword noName, splitNameAbsent noName]
  rfl

theorem nameNoNumber {name rest : List Char} (named : isName name = true) :
    splitNumber? (name ++ rest) = none := by
  cases name with
  | nil => cases named
  | cons c tail =>
    simp only [isName, Bool.and_eq_true] at named
    exact splitNumberAbsent (nameStartDigit named.1)

theorem scanKeyword (word : Keyword) {rest : List Char} (line : Nat)
    (stops : Stops isNameChar rest) :
    scan (word.spelling.toList ++ rest) line = .ok (.keyword word, rest) := by
  unfold scan
  rw [nameNoNumber (keywordLetters word), keywordWhole word stops]

theorem scanName {name rest : List Char} (line : Nat) (named : isName name = true)
    (free : String.ofList name ∉ Keyword.all.map Keyword.spelling) (stops : Stops isNameChar rest) :
    scan (name ++ rest) line = .ok (.identifier (String.ofList name), rest) := by
  unfold scan
  rw [nameNoNumber named, keywordAbsent named free stops, splitNameWhole named stops]

theorem comparisonForm {pattern : String} {token : Token}
    (member : (pattern, token) ∈ comparisonTable) : ∃ c, pattern.toList = [c, '='] := by
  simp only [comparisonTable, List.mem_cons, Prod.mk.injEq, List.not_mem_nil, or_false] at member
  rcases member with ⟨rfl, -⟩ | ⟨rfl, -⟩ | ⟨rfl, -⟩ | ⟨rfl, -⟩ <;> exact ⟨_, rfl⟩

theorem scanSymbol {c : Char} {rest : List Char} (line : Nat) (known : c ∈ symbols)
    (stops : Stops (· == '=') rest) : scan (c :: rest) line = .ok (.char c, rest) := by
  have each : symbols.all (fun c => !c.isDigit && !isNameStart c) = true := by decide
  have plain : c.isDigit = false ∧ isNameStart c = false := by
    simpa using List.all_eq_true.mp each c known
  have single : splitPattern? comparisonTable (c :: rest) = none := by
    cases found : splitPattern? comparisonTable (c :: rest) with
    | none => rfl
    | some entry =>
      obtain ⟨pattern, member, parts⟩ := splitPatternParts found
      obtain ⟨first, form⟩ := comparisonForm member
      rw [form] at parts
      obtain ⟨-, rfl⟩ := List.cons.inj parts
      cases stops '=' rfl
  rw [scanMark plain.1 plain.2, single]
  exact if_pos known

theorem scanString {content : List Char} (rest : List Char) (line : Nat)
    (free : quotationMarks.1 ∉ content ∨ quotationMarks.2 ∉ content) :
    scan (markFor content :: content ++ markFor content :: rest) line =
      .ok (.string (String.ofList content), rest) := by
  unfold markFor
  split
  · rename_i first
    have second := free.resolve_left fun absent => absent first
    have opened : splitQuoted quotationMarks.1 (quotationMarks.2 :: content ++
      quotationMarks.2 :: rest) = .absent := rfl
    rw [List.cons_append, scanMark rfl rfl]
    change scanQuoted (quotationMarks.2 :: content ++ quotationMarks.2 :: rest) line = _
    rw [scanQuoted, opened]
    dsimp only
    rw [splitQuotedWhole rest second]
  · rename_i first
    rw [List.cons_append, scanMark rfl rfl]
    change scanQuoted (quotationMarks.1 :: content ++ quotationMarks.1 :: rest) line = _
    rw [scanQuoted, splitQuotedWhole rest first]

theorem numberDigits {value : Int64} (positive : 0 ≤ value.toInt) :
    (Integer.text value).toList = Nat.toDigits 10 value.toInt.toNat ∧
      Integer.ofDigits? (Nat.toDigits 10 value.toInt.toNat) = some value := by
  constructor
  · have magnitude : value.toInt.natAbs = value.toInt.toNat := by omega
    rcases Integer.textDigits value with ⟨-, text⟩ | ⟨negative, -⟩
    · rw [text, magnitude]
    · omega
  · rw [Integer.ofDigits?, Nat.ofDigitChars_ten_toDigits, Int.toNat_of_nonneg positive]
    exact Integer.ofIntToInt value

theorem scanNumeral {digits rest : List Char} {word : Int64} (numeral : Numeral digits)
    (stops : Stops Char.isDigit rest) (line : Nat) (read : Integer.ofDigits? digits = some word) :
    scan (digits ++ rest) line = .ok (.number word, rest) := by
  unfold scan
  simp only [splitNumberWhole numeral stops, read]

theorem scanTooLarge {digits rest : List Char} (numeral : Numeral digits)
    (stops : Stops Char.isDigit rest) (line : Nat) (large : Integer.ofDigits? digits = none) :
    scan (digits ++ rest) line = .error (.integerTooLarge digits line) := by
  unfold scan
  simp only [splitNumberWhole numeral stops, large]

theorem scanNumber {value : Int64} (positive : 0 ≤ value.toInt) {rest : List Char} (line : Nat)
    (stops : Stops Char.isDigit rest) :
    scan ((Integer.text value).toList ++ rest) line = .ok (.number value, rest) := by
  obtain ⟨digits, exact⟩ := numberDigits positive
  rw [digits]
  exact scanNumeral (numeralOf value.toInt.toNat) stops line exact

structure Compact (text : List Char) : Prop where
  first : ∃ c ∈ text.head?, isBlankChar c = false
  last : ∃ c ∈ text.getLast?, isBlankChar c = false
  oneLine : '\n' ∉ text

theorem compactSolid {text : List Char} (nonempty : text ≠ [])
    (solid : ∀ c ∈ text, isBlankChar c = false) : Compact text where
  first := ⟨text.head nonempty, List.head_mem_head? nonempty, solid _ (List.head_mem nonempty)⟩
  last := ⟨text.getLast nonempty, List.getLast_mem_getLast? nonempty,
    solid _ (List.getLast_mem nonempty)⟩
  oneLine member := absurd (solid _ member) (by decide)

theorem numeralCompact {digits : List Char} (numeral : Numeral digits) : Compact digits :=
  compactSolid numeral.nonempty (numeralSolid numeral)

theorem Compact.join {left gap right : List Char} (before : Compact left) (behind : Compact right)
    (between : '\n' ∉ gap) : Compact (left ++ gap ++ right) where
  first := by
    obtain ⟨c, start, solid⟩ := before.first
    rw [Option.mem_def] at start
    exact ⟨c, by simp [start], solid⟩
  last := by
    obtain ⟨c, ending, solid⟩ := behind.last
    rw [Option.mem_def] at ending
    exact ⟨c, by simp [ending], solid⟩
  oneLine := by simp [before.oneLine, behind.oneLine, between]

theorem spellingCompact {token : Token} (writable : token.Writable) : Compact token.spelling := by
  cases token with
  | number value =>
    rw [spelling, (numberDigits writable).1]
    exact numeralCompact (numeralOf value.toInt.toNat)
  | identifier name =>
    refine compactSolid ?_ fun c member => nameCharSolid (nameLetters writable.1 c member)
    intro empty
    have named := writable.1
    rw [show name.toList = [] from empty] at named
    cases named
  | char symbol =>
    have each : symbols.all (fun c => !isBlankChar c) = true := by decide
    have solid : isBlankChar symbol = false := by
      simpa using List.all_eq_true.mp each symbol writable
    exact compactSolid (List.cons_ne_nil _ _) fun c member => List.mem_singleton.mp member ▸ solid
  | string content =>
    have mark : isBlankChar (markFor content.toList) = false ∧ markFor content.toList ≠ '\n' := by
      unfold markFor
      split <;> decide
    refine ⟨⟨_, rfl, mark.1⟩, ⟨_, List.getLast?_concat, mark.1⟩, ?_⟩
    simp [spelling, writable.1, mark.2.symm]
  | keyword word =>
    refine compactSolid ?_ fun c member => nameCharSolid (nameLetters (keywordLetters word) c member)
    cases word <;> decide
  | eq | notEq | lessOrEq | greaterOrEq =>
    refine compactSolid (List.cons_ne_nil _ _) fun c member => ?_
    simp only [spelling, List.mem_cons, List.not_mem_nil, or_false] at member
    rcases member with rfl | rfl <;> decide
  | newline | indent | dedent | eof => exact absurd writable id

def Parted (rest : List Char) : Prop := ∀ c ∈ rest.head?, c = ' '

theorem Parted.stops {rest : List Char} {kind : Char → Bool} (parted : Parted rest)
    (space : kind ' ' = false) : Stops kind rest :=
  fun c first => parted c first ▸ space

theorem scanSpelling {token : Token} {rest : List Char} (line : Nat) (writable : token.Writable)
    (parted : Parted rest) : scan (token.spelling ++ rest) line = .ok (token, rest) := by
  cases token with
  | number value => exact scanNumber writable line (parted.stops (by decide))
  | identifier name =>
    have free : String.ofList name.toList ∉ Keyword.all.map Keyword.spelling := by
      rw [String.ofList_toList]
      exact writable.2
    have scanned := scanName line writable.1 free (parted.stops (by decide))
    rw [String.ofList_toList] at scanned
    exact scanned
  | char symbol => exact scanSymbol line writable (parted.stops (by decide))
  | string content =>
    have scanned := scanString rest line writable.2
    rw [String.ofList_toList] at scanned
    rw [spelling, List.append_assoc]
    exact scanned
  | keyword word => exact scanKeyword word line (parted.stops (by decide))
  | eq | notEq | lessOrEq | greaterOrEq => exact scanMark rfl rfl
  | newline | indent | dedent | eof => exact absurd writable id

theorem scanNamed {text rest : List Char} {line : Nat} {name : String}
    (scanned : scan text line = .ok (.identifier name, rest)) : Writable (.identifier name) := by
  obtain ⟨spelling, spelled, parts⟩ := scanSpelled scanned
  obtain ⟨c, tail, rfl, start⟩ : ∃ c tail, text = c :: tail ∧ isNameStart c = true := by
    cases spelled with
    | identifier start => exact ⟨_, _, parts.symm, start⟩
    | comparison member => simp [comparisonTable] at member
  have named : isName (c :: tail.takeWhile isNameChar) = true := by
    simp [isName, start]
  have stops := stopsDropWhile isNameChar tail
  have whole : c :: tail = (c :: tail.takeWhile isNameChar) ++ tail.dropWhile isNameChar := by
    rw [List.cons_append, List.takeWhile_append_dropWhile]
  rw [whole] at scanned
  by_cases listed : String.ofList (c :: tail.takeWhile isNameChar) ∈
      Keyword.all.map Keyword.spelling
  · obtain ⟨word, -, same⟩ := List.mem_map.mp listed
    rw [← String.toList_ofList (l := c :: tail.takeWhile isNameChar), ← same,
      scanKeyword word line stops] at scanned
    cases scanned
  · rw [scanName line named listed stops] at scanned
    cases scanned
    exact ⟨by rw [String.toList_ofList]; exact named, listed⟩

theorem scanQuotedFree {text rest : List Char} {line : Nat} {content : String}
    (scanned : scanQuoted text line = .ok (.string content, rest)) :
    quotationMarks.1 ∉ content.toList ∨ quotationMarks.2 ∉ content.toList := by
  unfold scanQuoted at scanned
  split at scanned
  · rename_i found
    cases scanned
    rw [String.toList_ofList]
    exact .inl (splitQuotedFree found)
  · cases scanned
  · split at scanned
    · rename_i found
      cases scanned
      rw [String.toList_ofList]
      exact .inr (splitQuotedFree found)
    · cases scanned
    · cases scanned

theorem scanWritable {text rest : List Char} {line : Nat} {token : Token}
    (scanned : scan text line = .ok (token, rest)) (plain : '\n' ∉ text) : token.Writable := by
  obtain ⟨spelling, spelled, rfl⟩ := scanSpelled scanned
  cases spelled with
  | number nonempty decimal exact =>
    change 0 ≤ Int64.toInt _
    rw [Integer.ofIntExact exact]
    exact Int.natCast_nonneg _
  | keyword word => trivial
  | identifier start letters => exact scanNamed scanned
  | comparison member =>
    simp only [comparisonTable, List.mem_cons, Prod.mk.injEq, List.not_mem_nil, or_false] at member
    rcases member with ⟨-, rfl⟩ | ⟨-, rfl⟩ | ⟨-, rfl⟩ | ⟨-, rfl⟩ <;> trivial
  | symbol known => exact known
  | @quoted mark content either =>
    refine ⟨fun broken => plain ?_, ?_⟩
    · rw [String.toList_ofList] at broken
      simp [broken]
    · have quotes : scan (mark :: content ++ [mark] ++ rest) line =
          scanQuoted (mark :: content ++ [mark] ++ rest) line := by
        rcases either with rfl | rfl <;> exact scanMark rfl rfl
      rw [quotes] at scanned
      exact scanQuotedFree scanned

end Token

end Offside
