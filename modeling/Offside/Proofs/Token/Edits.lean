import Mathlib.Algebra.Group.Nat.Even
import Mathlib.Logic.Relation
import Offside.Proofs.Token.Blanks
import Offside.Proofs.Token.Writing

/-! Edits that leave the tokens of a text as they are: other line ends, blank lines, blanks at the ends of
lines, an odd space in front. What the tokens come from is the substance of the lines that are not blank,
their levels and what stands between the blanks at both ends, and no such edit touches it. -/
namespace Offside.Layout
open Text

def LineStart (front : List Char) : Prop := ∀ c ∈ front.getLast?, c = '\n'

def LineEnd (back : List Char) : Prop := ∀ c ∈ back.head?, c = '\n'

inductive Edit : List Char → List Char → Prop where
  | carriageReturn (front back : List Char) :
      Edit (front ++ '\n' :: back) (front ++ '\r' :: '\n' :: back)
  | blankLine {front line : List Char} (start : LineStart front) (blank : isBlank line = true)
      (single : '\n' ∉ line) (back : List Char) : Edit (front ++ back) (front ++ line ++ '\n' :: back)
  | lastBlankLine {front line : List Char} (start : LineStart front) (blank : isBlank line = true)
      (single : '\n' ∉ line) : Edit front (front ++ line)
  | trailing {front line blanks back : List Char} (start : LineStart front) (stop : LineEnd back)
      (single : '\n' ∉ line) (solid : isBlank line = false) (blank : isBlank blanks = true)
      (inside : '\n' ∉ blanks) : Edit (front ++ line ++ back) (front ++ line ++ blanks ++ back)
  | oddSpace {front line back : List Char} (start : LineStart front) (stop : LineEnd back)
      (single : '\n' ∉ line) (solid : isBlank line = false) (even : Even (indentation line)) :
      Edit (front ++ line ++ back) (front ++ ' ' :: line ++ back)
  | lineFeed (text : List Char) : Edit text (text ++ ['\n'])

/-- What counts of a line: its level, and the text without the spaces in front and the blanks behind. -/
structure Substance where
  level : Nat
  content : List Char

def contentOf (line : List Char) : List Char := (line.dropWhile (· == ' ')).rdropWhile isBlankChar

def substance? (line : List Char) : Option Substance :=
  if isBlank line then none else some ⟨levelOf line, contentOf line⟩

def substances (text : List Char) : List Substance := (text.splitOn '\n').filterMap substance?

def Substance.tokens? (before : Nat) (substance : Substance) : Option (List Token) :=
  if substance.content.head? = some '\t' then none
  else (words 0 substance.content).toOption.map fun found =>
    steps before substance.level ++ found ++ [.newline]

def substanceTokens? (before : Nat) : List Substance → Option (List Token)
  | [] => some (List.replicate before .dedent ++ [.eof])
  | substance :: rest => do
    let here ← substance.tokens? before
    let more ← substanceTokens? substance.level rest
    pure (here ++ more)

theorem blankSubstance {line : List Char} (blank : isBlank line = true) : substance? line = none := by
  rw [substance?, blank]
  rfl

theorem trimmedTail {kind : Char → Bool} {tail : List Char} (all : ∀ c ∈ tail, kind c = true)
    (text : List Char) : (text ++ tail).rdropWhile kind = text.rdropWhile kind := by
  simp only [List.rdropWhile, List.reverse_append]
  rw [List.dropWhile_append_of_pos fun c member => all c (List.mem_reverse.mp member)]

theorem substanceTail {tail : List Char} (blank : isBlank tail = true) (line : List Char) :
    substance? (line ++ tail) = substance? line := by
  unfold substance?
  rw [blankAppend, blank, Bool.and_true]
  split
  · rfl
  · rename_i solid
    obtain ⟨spaces, left⟩ := runInside (gapsInside (by simpa using solid) spaceBlank) tail
    rw [levelOf, levelOf, contentOf, contentOf, spaces, left,
      trimmedTail (List.all_eq_true.mp blank)]

theorem substanceReturns (line : List Char) :
    substance? (line.rdropWhile (· == '\r')) = substance? line := by
  have returns : isBlank (line.rtakeWhile (· == '\r')) = true := by
    refine List.all_eq_true.mpr fun c member => ?_
    have same : c = '\r' := by simpa using List.mem_rtakeWhile_imp member
    rw [same]
    decide
  rw [← substanceTail returns, List.rdropWhile_append_rtakeWhile]

theorem substanceSpace {line : List Char} (even : Even (indentation line)) :
    substance? (' ' :: line) = substance? line := by
  have level : levelOf (' ' :: line) = levelOf line := by
    obtain ⟨half, spaces⟩ := even
    have more : indentation (' ' :: line) = indentation line + 1 := rfl
    change indentation (' ' :: line) / 2 = indentation line / 2
    omega
  have white : isBlank (' ' :: line) = isBlank line := rfl
  unfold substance?
  rw [white, level]
  rfl

theorem behindSpaces {β : Type} (reading : List Char → β)
    (ignores : ∀ rest, reading (' ' :: rest) = reading rest) (line : List Char) :
    reading (line.dropWhile (· == ' ')) = reading line := by
  induction line with
  | nil => rfl
  | cons c rest ih =>
    by_cases space : c = ' '
    · subst space
      exact ih.trans (ignores rest).symm
    · rw [List.dropWhile_cons_of_neg (by simpa using space)]

theorem gapsBehindSpaces (line : List Char) :
    (line.dropWhile (· == ' ')).dropWhile isGap = line.dropWhile isGap :=
  behindSpaces (·.dropWhile isGap) (fun _ => rfl) line

theorem blankBehindSpaces (line : List Char) : isBlank (line.dropWhile (· == ' ')) = isBlank line :=
  behindSpaces isBlank (fun _ => rfl) line

theorem wordsBehindSpaces {line : List Char} (solid : isBlank line = false) (number : Nat) :
    (words number (line.dropWhile (· == ' '))).toOption = (words number line).toOption := by
  rw [wordsFound solid, wordsFound (by rw [blankBehindSpaces, solid]), gapsBehindSpaces]

theorem contentParts (line : List Char) :
    ∃ tail, isBlank tail = true ∧ contentOf line ++ tail = line.dropWhile (· == ' ') :=
  ⟨_, List.all_eq_true.mpr fun _ member => List.mem_rtakeWhile_imp member,
    List.rdropWhile_append_rtakeWhile⟩

theorem contentWords {line : List Char} (solid : isBlank line = false) (number : Nat) :
    (words 0 (contentOf line)).toOption = (words number line).toOption := by
  obtain ⟨tail, blank, parts⟩ := contentParts line
  rw [← wordsTail blank (contentOf line) number, parts, wordsBehindSpaces solid]

theorem contentStart {line : List Char} (solid : isBlank line = false) :
    (contentOf line).head? = (line.dropWhile (· == ' ')).head? := by
  obtain ⟨tail, blank, parts⟩ := contentParts line
  have nonempty : contentOf line ≠ [] := by
    intro empty
    rw [empty, List.nil_append] at parts
    rw [parts, blankBehindSpaces, solid] at blank
    cases blank
  rw [← parts, List.head?_append_of_ne_nil _ nonempty]

theorem substanceLine {line : List Char} (solid : isBlank line = false) (before number : Nat) :
    substance? line = some ⟨levelOf line, contentOf line⟩ ∧
      (lineTokens before number line).toOption =
        Substance.tokens? before ⟨levelOf line, contentOf line⟩ := by
  refine ⟨by rw [substance?, solid]; rfl, ?_⟩
  rw [lineTokens, Substance.tokens?, contentStart solid, contentWords solid number]
  split
  · rfl
  · cases words number line <;> rfl

theorem tokensFromSubstances (lines : List (List Char)) (line before : Nat) :
    (tokensFrom line before (lines.map .ok)).toOption =
      substanceTokens? before (lines.filterMap substance?) := by
  induction lines generalizing line before with
  | nil => rfl
  | cons text rest ih =>
    rw [List.map_cons, tokensFrom]
    cases white : isBlank text with
    | true =>
      rw [List.filterMap_cons_none (blankSubstance white)]
      exact ih (line + 1) before
    | false =>
      obtain ⟨found, here⟩ := substanceLine white before (line + 1)
      rw [List.filterMap_cons_some found, substanceTokens?, ← here, ← ih (line + 1)]
      cases lineTokens before (line + 1) text with
      | error error => rfl
      | ok here => cases tokensFrom (line + 1) (levelOf text) (rest.map .ok) <;> rfl

theorem tokensSubstances (text : String) :
    (Source.ofString text).tokens.toOption = substanceTokens? 0 (substances text.toList) := by
  have lines : (text.toList.splitOn '\n').map (fun line =>
      (.ok (line.rdropWhile (· == '\r')) : Except ReadError (List Char))) =
      ((text.toList.splitOn '\n').map (·.rdropWhile (· == '\r'))).map .ok := by
    rw [List.map_map]
    rfl
  rw [tokensOfString, lines, tokensFromSubstances, List.filterMap_map, substances]
  congr 2
  funext line
  exact substanceReturns line

theorem linesBehind {front : List Char} (start : LineStart front) : ∃ lines : List (List Char),
    ∀ back : List Char, (front ++ back).splitOn '\n' = lines ++ back.splitOn '\n' := by
  rcases List.eq_nil_or_concat front with rfl | ⟨others, last, rfl⟩
  · exact ⟨[], fun back => rfl⟩
  · obtain rfl : last = '\n' := start last (by simp)
    refine ⟨others.splitOn '\n', fun back => ?_⟩
    rw [List.concat_eq_append, List.append_assoc, List.singleton_append,
      List.splitOn_append_cons_self]

theorem lineBefore {back : List Char} (stop : LineEnd back) : ∃ lines : List (List Char),
    ∀ line : List Char, '\n' ∉ line → (line ++ back).splitOn '\n' = line :: lines := by
  cases back with
  | nil =>
    refine ⟨[], fun line single => ?_⟩
    rw [List.append_nil, List.splitOn_eq_singleton single]
  | cons c rest =>
    obtain rfl : c = '\n' := stop c rfl
    exact ⟨_, fun line single => List.splitOn_append_cons_self_of_not_mem single rest⟩

theorem substancesLine {front line other back : List Char} (start : LineStart front)
    (stop : LineEnd back) (single : '\n' ∉ line) (alone : '\n' ∉ other)
    (same : substance? other = substance? line) :
    substances (front ++ (other ++ back)) = substances (front ++ (line ++ back)) := by
  obtain ⟨before, cut⟩ := linesBehind start
  obtain ⟨behind, split⟩ := lineBefore stop
  rw [substances, substances, cut, cut, split line single, split other alone, List.filterMap_append,
    List.filterMap_append, List.filterMap_cons, List.filterMap_cons, same]

theorem lastLine (text : List Char) :
    ∃ front line, text = front ++ line ∧ LineStart front ∧ '\n' ∉ line := by
  refine ⟨text.rdropWhile (· != '\n'), text.rtakeWhile (· != '\n'),
    List.rdropWhile_append_rtakeWhile.symm, ?_, ?_⟩
  · intro c last
    have nonempty : text.rdropWhile (· != '\n') ≠ [] := by
      intro empty
      rw [empty] at last
      cases last
    rw [List.getLast?_eq_some_getLast nonempty, Option.mem_some] at last
    simpa [last] using List.rdropWhile_last_not (· != '\n') text nonempty
  · intro broken
    simpa using List.mem_rtakeWhile_imp broken

theorem editSubstances {before after : List Char} (edit : Edit before after) :
    substances after = substances before := by
  cases edit with
  | carriageReturn front back =>
    obtain ⟨front, line, rfl, start, single⟩ := lastLine front
    have alone : '\n' ∉ line ++ ['\r'] := by simpa using single
    have stop : LineEnd ('\n' :: back) := fun c first => by
      cases first
      rfl
    have kept := substancesLine start stop single alone (substanceTail (by decide) line)
    simpa using kept
  | @blankLine front line start blank single back =>
    obtain ⟨before, cut⟩ := linesBehind start
    rw [substances, substances, List.append_assoc, cut, cut,
      List.splitOn_append_cons_self_of_not_mem single, List.filterMap_append,
      List.filterMap_append, List.filterMap_cons_none (blankSubstance blank)]
  | @lastBlankLine front line start blank single =>
    have stop : LineEnd [] := fun c none => by cases none
    have kept := substancesLine start stop List.not_mem_nil single
      ((blankSubstance blank).trans (blankSubstance blankNil).symm)
    simpa using kept
  | @trailing front line blanks back start stop single solid blank inside =>
    have alone : '\n' ∉ line ++ blanks := by simp [single, inside]
    have kept := substancesLine start stop single alone (substanceTail blank line)
    simpa using kept
  | @oddSpace front line back start stop single solid even =>
    have alone : '\n' ∉ ' ' :: line := by simpa using single
    have kept := substancesLine start stop single alone (substanceSpace even)
    simpa using kept
  | lineFeed =>
    rw [substances, substances, List.splitOn_append_cons_self, List.filterMap_append]
    exact List.append_nil _

theorem editsKeepTokens {before after : String} {tokens : List Token}
    (edited : Relation.EqvGen Edit before.toList after.toList)
    (accepted : (Source.ofString before).tokens = .ok tokens) :
    (Source.ofString after).tokens = .ok tokens := by
  have same : substances after.toList = substances before.toList := by
    generalize before.toList = first, after.toList = last at edited
    induction edited with
    | rel first last edit => exact editSubstances edit
    | refl => rfl
    | symm _ _ _ ih => exact ih.symm
    | trans _ _ _ _ _ ih further => exact further.trans ih
  have kept : (Source.ofString after).tokens.toOption = some tokens := by
    rw [tokensSubstances, same, ← tokensSubstances, accepted]
    rfl
  cases read : (Source.ofString after).tokens with
  | error error =>
    rw [read] at kept
    cases kept
  | ok found =>
    rw [read] at kept
    exact congrArg Except.ok (Option.some.inj kept)

/- A carriage return, a blank line with a tab, an odd space, a blank that is no space, and the line feed
at the end taken away. -/
theorem editsKeepTokensNested :
    Relation.EqvGen Edit "if x:\n  y\nz\n".toList "if x:\r\n\t \n   y\u00a0\nz".toList ∧
      (Source.ofString "if x:\r\n\t \n   y\u00a0\nz").tokens =
        .ok [.keyword .ifK, .identifier "x", .char ':', .newline, .indent, .identifier "y", .newline,
          .dedent, .identifier "z", .newline, .eof] := by
  have started : ∀ line : List Char, LineStart (line ++ ['\n']) := fun line c last => by
    simpa using last.symm
  have stopped : ∀ rest : List Char, LineEnd ('\n' :: rest) := fun rest c first => by
    simpa using first.symm
  have returned : Edit "if x:\n  y\nz\n".toList "if x:\r\n  y\nz\n".toList :=
    .carriageReturn "if x:".toList "  y\nz\n".toList
  have inserted : Edit "if x:\r\n  y\nz\n".toList "if x:\r\n\t \n  y\nz\n".toList :=
    .blankLine (started "if x:\r".toList) (by decide : isBlank "\t ".toList = true) (by decide)
      "  y\nz\n".toList
  have indented : Edit "if x:\r\n\t \n  y\nz\n".toList "if x:\r\n\t \n   y\nz\n".toList :=
    @Edit.oddSpace _ "  y".toList _ (started "if x:\r\n\t ".toList) (stopped "z\n".toList)
      (by decide) (by decide) (by decide)
  have trailed : Edit "if x:\r\n\t \n   y\nz\n".toList "if x:\r\n\t \n   y\u00a0\nz\n".toList :=
    @Edit.trailing _ "   y".toList "\u00a0".toList _ (started "if x:\r\n\t ".toList)
      (stopped "z\n".toList) (by decide) (by decide) (by decide) (by decide)
  have ended : Edit "if x:\r\n\t \n   y\u00a0\nz".toList "if x:\r\n\t \n   y\u00a0\nz\n".toList :=
    .lineFeed _
  have edited := ((((Relation.EqvGen.rel _ _ returned).trans _ _ _ (.rel _ _ inserted)).trans _ _ _
    (.rel _ _ indented)).trans _ _ _ (.rel _ _ trailed)).trans _ _ _ (.symm _ _ (.rel _ _ ended))
  exact ⟨edited, editsKeepTokens edited (by decide +kernel)⟩

end Offside.Layout
