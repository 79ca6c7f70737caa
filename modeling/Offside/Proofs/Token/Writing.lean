import Offside.Proofs.Token.Spelling
import Offside.Proofs.Token.Stream

/-! Lines written from tokens: the indentation of a level, the spellings with single spaces between
them, the end of the line. Reading them gives the tokens back, line by line, with the steps from each
level to the next. All that is read from bytes can be written so. -/
namespace Offside

namespace Layout
open Token (Compact Parted scanSpelling spellingCompact)

structure Row where
  level : Nat
  tokens : List Token
  nonempty : tokens ≠ []
  writable : ∀ token ∈ tokens, token.Writable

def spaced (tokens : List Token) : List Char := [' '].intercalate (tokens.map Token.spelling)

def Row.text (row : Row) : List Char := List.replicate (2 * row.level) ' ' ++ spaced row.tokens

def written (rows : List Row) : String := String.ofList (rows.flatMap fun row => row.text ++ ['\n'])

def rowTokens (before : Nat) : List Row → List Token
  | [] => List.replicate before .dedent ++ [.eof]
  | row :: rest => steps before row.level ++ row.tokens ++ .newline :: rowTokens row.level rest

theorem spacedSingle (token : Token) : spaced [token] = token.spelling :=
  List.intercalate_singleton

theorem spacedMore (token next : Token) (rest : List Token) :
    spaced (token :: next :: rest) = token.spelling ++ [' '] ++ spaced (next :: rest) :=
  List.intercalate_cons_cons

theorem spacedCompact {tokens : List Token} (nonempty : tokens ≠ [])
    (writable : ∀ token ∈ tokens, token.Writable) : Compact (spaced tokens) := by
  induction tokens with
  | nil => exact absurd rfl nonempty
  | cons token rest ih =>
    obtain ⟨here, others⟩ := List.forall_mem_cons.mp writable
    cases rest with
    | nil =>
      rw [spacedSingle]
      exact spellingCompact here
    | cons next more =>
      rw [spacedMore]
      exact (spellingCompact here).join (ih (List.cons_ne_nil _ _) others) (by decide)

theorem indentedParts {text : List Char} (start : ∃ c ∈ text.head?, Text.isBlankChar c = false)
    (width : Nat) :
    (List.replicate width ' ' ++ text).takeWhile (· == ' ') = List.replicate width ' ' ∧
      (List.replicate width ' ' ++ text).dropWhile (· == ' ') = text ∧
      (List.replicate width ' ' ++ text).dropWhile isGap = text ∧
      Text.isBlank (List.replicate width ' ' ++ text) = false := by
  obtain ⟨c, first, solid⟩ := start
  have stops : ∀ kind : Char → Bool, kind c = false → Text.Stops kind text := by
    intro kind other found same
    rw [first] at same
    cases same
    exact other
  have blank : ∀ other, Text.isBlankChar other = true → c ≠ other := by
    rintro _ blank rfl
    rw [blank] at solid
    cases solid
  have space : (c == ' ') = false := by simpa using blank ' ' (by decide)
  have tab : (c == '\t') = false := by simpa using blank '\t' (by decide)
  have spaces : ∀ other ∈ List.replicate width ' ', (other == ' ') = true := by simp
  have gaps : ∀ other ∈ List.replicate width ' ', isGap other = true := by simp [isGap]
  obtain ⟨taken, left⟩ := Text.takeUpTo spaces (stops _ space)
  have trimmed := (Text.takeUpTo gaps (stops isGap (by rw [isGap, space, tab]; rfl))).2
  refine ⟨taken, left, trimmed, ?_⟩
  cases text with
  | nil => cases first
  | cons head tail =>
    cases first
    rw [Text.blankAppend, Text.blankCons, solid, Bool.false_and, Bool.and_false]

theorem wordsStep {token : Token} {tail : List Char} (line width : Nat) (writable : token.Writable)
    (parted : Parted tail) :
    words line (List.replicate width ' ' ++ (token.spelling ++ tail)) =
      (words line tail).map (token :: ·) := by
  have start : ∃ c ∈ (token.spelling ++ tail).head?, Text.isBlankChar c = false := by
    obtain ⟨c, first, solid⟩ := (spellingCompact writable).first
    rw [Option.mem_def] at first
    exact ⟨c, by simp [first], solid⟩
  obtain ⟨-, -, trimmed, solid⟩ := indentedParts start width
  refine wordsScanned solid ?_
  rw [trimmed]
  exact scanSpelling line writable parted

theorem wordsSpaced {tokens : List Token} (line width : Nat)
    (writable : ∀ token ∈ tokens, token.Writable) :
    words line (List.replicate width ' ' ++ spaced tokens) = .ok tokens := by
  induction tokens generalizing width with
  | nil =>
    have blank : Text.isBlank (List.replicate width ' ' ++ spaced []) = true := by
      simp [Text.isBlank, spaced, Text.isBlankChar, Text.blankRanges]
    exact wordsBlank blank
  | cons token rest ih =>
    obtain ⟨here, others⟩ := List.forall_mem_cons.mp writable
    cases rest with
    | nil =>
      have ending : Parted [] := fun c first => by cases first
      have ended := wordsStep line width here ending
      have nothing : words line [] = .ok [] := wordsBlank Text.blankNil
      rw [List.append_nil, nothing] at ended
      rw [spacedSingle, ended]
      rfl
    | cons next more =>
      have gap : Parted ([' '] ++ spaced (next :: more)) := fun c first => by
        cases first
        rfl
      rw [spacedMore, List.append_assoc, wordsStep line width here gap]
      have behind := ih 1 others
      rw [List.replicate_one] at behind
      rw [behind]
      rfl

theorem rowLevel (row : Row) : levelOf row.text = row.level := by
  obtain ⟨taken, -⟩ := indentedParts (spacedCompact row.nonempty row.writable).first (2 * row.level)
  rw [levelOf, Row.text, taken, List.length_replicate]
  omega

theorem rowSolid (row : Row) : Text.isBlank row.text = false :=
  (indentedParts (spacedCompact row.nonempty row.writable).first (2 * row.level)).2.2.2

theorem rowLine (row : Row) (before line : Nat) :
    lineTokens before line row.text =
      .ok (steps before row.level ++ row.tokens ++ [.newline]) := by
  have compact := spacedCompact row.nonempty row.writable
  obtain ⟨-, left, -, -⟩ := indentedParts compact.first (2 * row.level)
  have plain : ¬ (row.text.dropWhile (· == ' ')).head? = some '\t' := by
    obtain ⟨c, first, solid⟩ := compact.first
    rw [Option.mem_def] at first
    rw [Row.text, left, first, Option.some.injEq]
    rintro rfl
    cases solid
  rw [lineTokensPlain plain, rowLevel, Row.text, wordsSpaced line _ row.writable]
  rfl

theorem untrimmed {text : List Char} (last : ∃ c ∈ text.getLast?, Text.isBlankChar c = false) :
    text.rdropWhile (· == '\r') = text := by
  obtain ⟨c, ending, solid⟩ := last
  refine List.rdropWhile_eq_self_iff.mpr fun some returned => ?_
  rw [List.getLast?_eq_some_getLast some, Option.mem_def, Option.some.injEq] at ending
  rw [← ending, eq_of_beq returned] at solid
  cases solid

theorem rowUntrimmed (row : Row) : row.text.rdropWhile (· == '\r') = row.text := by
  obtain ⟨c, ending, solid⟩ := (spacedCompact row.nonempty row.writable).last
  rw [Option.mem_def] at ending
  refine untrimmed ⟨c, ?_, solid⟩
  rw [Row.text, List.getLast?_append, ending]
  rfl

theorem rowOneLine (row : Row) : '\n' ∉ row.text := by
  have inside := (spacedCompact row.nonempty row.writable).oneLine
  simp [Row.text, inside]

theorem rowsFrom (rows : List Row) (line before : Nat) :
    tokensFrom line before (rows.map fun row => .ok row.text) = .ok (rowTokens before rows) := by
  induction rows generalizing line before with
  | nil => rfl
  | cons row rest ih =>
    simp only [List.map_cons, tokensFrom, rowSolid, rowLine, rowLevel, ih]
    change Except.ok (_ ++ [Token.newline] ++ rowTokens row.level rest) = _
    rw [List.append_assoc]
    rfl

theorem writtenLines (rows : List Row) :
    (written rows).toList.splitOn '\n' = rows.map Row.text ++ [[]] := by
  rw [written, String.toList_ofList]
  induction rows with
  | nil => rfl
  | cons row rest ih =>
    rw [List.flatMap_cons, List.append_assoc, List.singleton_append,
      List.splitOn_append_cons_self_of_not_mem (rowOneLine row), ih]
    rfl

theorem tokensOfString (text : String) : (Source.ofString text).tokens =
    tokensFrom 0 0 ((text.toList.splitOn '\n').map fun line => .ok (line.rdropWhile (· == '\r'))) := by
  rw [Source.tokensLayout]
  rcases Source.ofStringLines text with whole | extra
  · rw [whole]
  · rw [extra, tokensFromBlankEnd]

theorem tokensOfLines {text : String} {lines : List (List Char)}
    (cut : text.toList.splitOn '\n' = lines)
    (plain : ∀ line ∈ lines, line.rdropWhile (· == '\r') = line) :
    (Source.ofString text).tokens = tokensFrom 0 0 (lines.map .ok) := by
  rw [tokensOfString, cut]
  congr 1
  exact List.map_congr_left fun line member => congrArg Except.ok (plain line member)

theorem rowsReadBack (rows : List Row) :
    (Source.ofString (written rows)).tokens = .ok (rowTokens 0 rows) := by
  have plain : ∀ line ∈ rows.map Row.text ++ [[]], line.rdropWhile (· == '\r') = line := by
    intro line member
    rcases List.mem_append.mp member with text | last
    · obtain ⟨row, -, rfl⟩ := List.mem_map.mp text
      exact rowUntrimmed row
    · rw [List.mem_singleton.mp last]
      rfl
  rw [tokensOfLines (writtenLines rows) plain, List.map_append, List.map_map]
  exact (tokensFromBlankEnd 0 0 _).trans (rowsFrom rows 0 0)

end Layout

theorem TokenStream.sourceWritable {bytes : List UInt8} {lexeme : Lexeme}
    (member : lexeme ∈ (ofSource (.ofBytes bytes)).lexemes) (written : lexeme.token.isLayout = false) :
    lexeme.token.Writable := by
  obtain ⟨text, part, rest, listed, inside, scanned⟩ := sourceScans member written
  exact Token.scanWritable scanned fun broken => Source.linesPlain listed (inside.subset broken)

end Offside
