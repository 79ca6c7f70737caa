import Offside.Proofs.Token.Layout
import Offside.Proofs.Token.Spelling

/-! Blanks at the end of a line. A scan that finds a token finds the same one when blanks are put behind
the text, and leaves them; one that finds none finds none then either, and the number of the line has
no part in it. So the words of a line do not depend on its number or on the blanks at its end. -/
namespace Offside

namespace Text

variable {tail : List Char}

theorem blankStops {kind : Char → Bool} (blank : isBlank tail = true)
    (solid : ∀ c, kind c = true → isBlankChar c = false) : Stops kind tail := by
  intro c first
  have white := List.all_eq_true.mp blank c (List.mem_of_mem_head? first)
  by_contra other
  rw [solid c (eq_true_of_ne_false other)] at white
  cases white

theorem runTail {kind : Char → Bool} (stops : Stops kind tail) (text : List Char) :
    (text ++ tail).takeWhile kind = text.takeWhile kind ∧
      (text ++ tail).dropWhile kind = text.dropWhile kind ++ tail := by
  induction text with
  | nil => exact takeUpTo (fun c none => absurd none List.not_mem_nil) stops
  | cons c rest ih =>
    cases inside : kind c with
    | true => simp [inside, ih]
    | false => simp [inside]

theorem runInside {kind : Char → Bool} {text : List Char} (ends : text.dropWhile kind ≠ [])
    (tail : List Char) : (text ++ tail).takeWhile kind = text.takeWhile kind ∧
      (text ++ tail).dropWhile kind = text.dropWhile kind ++ tail := by
  induction text with
  | nil => exact absurd rfl ends
  | cons c rest ih =>
    cases inside : kind c with
    | true =>
      rw [List.dropWhile_cons_of_pos inside] at ends
      simp [inside, ih ends]
    | false => simp [inside]

theorem splitNumberTail (blank : isBlank tail = true) (text : List Char) :
    splitNumber? (text ++ tail) = (splitNumber? text).map (Prod.map id (· ++ tail)) := by
  have stops : Stops Char.isDigit tail :=
    blankStops blank fun c digit => nameCharSolid (digitChar digit)
  obtain ⟨taken, left⟩ := runTail stops text
  unfold splitNumber?
  rw [taken, left]
  split <;> rfl

theorem splitNameTail (blank : isBlank tail = true) (text : List Char) :
    splitName? (text ++ tail) = (splitName? text).map (Prod.map id (· ++ tail)) := by
  cases text with
  | nil =>
    cases tail with
    | nil => rfl
    | cons c others =>
      have white : isNameStart c = false :=
        blankStops blank (fun c start => nameCharSolid (nameStartChar start)) c rfl
      exact splitNameAbsent white
  | cons c rest =>
    obtain ⟨taken, left⟩ := runTail (blankStops blank fun c => nameCharSolid) rest
    rw [List.cons_append, splitName?, splitName?, taken, left]
    split <;> rfl

theorem prefixTail {pattern : List Char} (solid : ∀ c ∈ pattern, isBlankChar c = false)
    (blank : isBlank tail = true) (text : List Char) :
    pattern.isPrefixOf (text ++ tail) = pattern.isPrefixOf text := by
  induction pattern generalizing text with
  | nil => rfl
  | cons first others ih =>
    obtain ⟨here, behind⟩ := List.forall_mem_cons.mp solid
    cases text with
    | cons c rest => simp only [List.cons_append, List.isPrefixOf, ih behind]
    | nil =>
      cases tail with
      | nil => rfl
      | cons c rest =>
        have differ : first ≠ c := by
          rintro rfl
          rw [blankCons, here] at blank
          cases blank
        simp [List.isPrefixOf, differ]

def Solid {α : Type} (table : List (String × α)) : Prop :=
  ∀ entry ∈ table, ∀ c ∈ entry.1.toList, isBlankChar c = false

theorem longestTail {α : Type} {table : List (String × α)} (solid : Solid table)
    (blank : isBlank tail = true) (text : List Char) :
    longest? (text ++ tail) table = longest? text table := by
  induction table with
  | nil => rfl
  | cons entry rest ih =>
    obtain ⟨here, others⟩ := List.forall_mem_cons.mp solid
    rw [longest?, longest?, ih others, prefixTail here blank]

theorem splitPatternTail {α : Type} {table : List (String × α)} (solid : Solid table)
    (blank : isBlank tail = true) (text : List Char) :
    splitPattern? table (text ++ tail) =
      (splitPattern? table text).map (Prod.map id (· ++ tail)) := by
  rw [splitPattern?, splitPattern?, longestTail solid blank, Option.map_map]
  refine Option.map_congr fun entry found => ?_
  have inside := (longestEntry found).2.length_le
  rw [String.length_toList] at inside
  simp [List.drop_append_of_le_length inside]

theorem splitWordTail {α : Type} {table : List (String × α)} (solid : Solid table)
    (blank : isBlank tail = true) (text : List Char) :
    splitWord? table (text ++ tail) = (splitWord? table text).map (Prod.map id (· ++ tail)) := by
  unfold splitWord?
  rw [splitPatternTail solid blank]
  cases splitPattern? table text with
  | none => rfl
  | some found =>
    obtain ⟨value, rest⟩ := found
    cases rest with
    | cons c others =>
      simp only [Option.map_some, Prod.map, id, List.cons_append]
      split <;> rfl
    | nil =>
      cases tail with
      | nil => rfl
      | cons c others =>
        have white : isNameChar c = false := blankStops blank (fun c => nameCharSolid) c rfl
        simp [Prod.map, white]

def Quotation.followed (tail : List Char) : Quotation → Quotation
  | .closed content rest => .closed content (rest ++ tail)
  | other => other

theorem splitQuotedTail {mark : Char} (solid : isBlankChar mark = false)
    (blank : isBlank tail = true) (text : List Char) :
    splitQuoted mark (text ++ tail) = (splitQuoted mark text).followed tail := by
  have inside : ∀ c ∈ tail, (c != mark) = true := by
    intro c member
    have white := List.all_eq_true.mp blank c member
    simp only [bne_iff_ne, ne_eq]
    rintro rfl
    rw [solid] at white
    cases white
  cases text with
  | nil =>
    cases tail with
    | nil => rfl
    | cons c others =>
      have differ : (c == mark) = false := by simpa using inside c List.mem_cons_self
      simp [splitQuoted, differ, Quotation.followed]
  | cons c body =>
    rw [List.cons_append, splitQuoted, splitQuoted]
    split
    · cases closing : body.dropWhile (· != mark) with
      | nil =>
        have all : (body ++ tail).dropWhile (· != mark) = [] := by
          rw [List.dropWhile_append, closing]
          exact List.dropWhile_eq_nil_iff.mpr inside
        rw [all]
        rfl
      | cons last rest =>
        obtain ⟨taken, left⟩ := runInside (by rw [closing]; exact List.cons_ne_nil _ _) tail
        rw [taken, left, closing]
        rfl
    · rfl

end Text

namespace Token
open Text

theorem keywordsSolid : Solid keywordTable := by
  intro entry member c inside
  obtain ⟨word, spelled, -⟩ := keywordEntry member
  rw [spelled] at inside
  exact nameCharSolid (nameLetters (keywordLetters word) c inside)

theorem comparisonsSolid : Solid comparisonTable := by
  have each : comparisonTable.all (fun entry => entry.1.toList.all (!isBlankChar ·)) = true := by
    decide
  intro entry member c inside
  simpa using List.all_eq_true.mp (List.all_eq_true.mp each entry member) c inside

theorem symbolSolid {c : Char} (known : c ∈ symbols) : isBlankChar c = false := by
  have each : symbols.all (!isBlankChar ·) = true := by decide
  simpa using List.all_eq_true.mp each c known

variable {tail : List Char}

theorem scanQuotedTail (blank : isBlank tail = true) (text : List Char) (line other : Nat) :
    (scanQuoted (text ++ tail) line).toOption =
      (scanQuoted text other).toOption.map (Prod.map id (· ++ tail)) := by
  unfold scanQuoted
  rw [splitQuotedTail (by decide) blank, splitQuotedTail (by decide) blank]
  cases splitQuoted quotationMarks.1 text with
  | closed | unterminated => rfl
  | absent => cases splitQuoted quotationMarks.2 text <;> rfl

theorem scanTail (blank : isBlank tail = true) (text : List Char) (line other : Nat) :
    (scan (text ++ tail) line).toOption =
      (scan text other).toOption.map (Prod.map id (· ++ tail)) := by
  unfold scan
  rw [splitNumberTail blank, splitWordTail keywordsSolid blank, splitNameTail blank,
    splitPatternTail comparisonsSolid blank]
  cases splitNumber? text with
  | some found =>
    simp only [Option.map_some, Prod.map, id]
    cases Integer.ofDigits? found.1 <;> rfl
  | none =>
    cases splitWord? keywordTable text with
    | some found => rfl
    | none =>
      cases splitName? text with
      | some found => rfl
      | none =>
        cases splitPattern? comparisonTable text with
        | some found => rfl
        | none =>
          cases text with
          | cons c rest =>
            simp only [Option.map_none, List.cons_append]
            split
            · rfl
            · exact scanQuotedTail blank (c :: rest) line other
          | nil =>
            have quoted := scanQuotedTail blank [] line other
            cases tail with
            | nil => exact quoted
            | cons c others =>
              have unknown : c ∉ symbols := fun known => by
                rw [blankCons, symbolSolid known] at blank
                cases blank
              simp only [Option.map_none, List.nil_append, if_neg unknown]
              exact quoted

end Token

namespace Layout
open Text

theorem gapsInside {kind : Char → Bool} {text : List Char} (solid : isBlank text = false)
    (gaps : ∀ c, kind c = true → isBlankChar c = true) : text.dropWhile kind ≠ [] := by
  intro empty
  have all : isBlank text = true := List.all_eq_true.mpr fun c member =>
    gaps c (List.dropWhile_eq_nil_iff.mp empty c member)
  rw [all] at solid
  cases solid

theorem gapBlank (c : Char) (gap : isGap c = true) : isBlankChar c = true := by
  simp only [isGap, Bool.or_eq_true, beq_iff_eq] at gap
  rcases gap with rfl | rfl <;> decide

theorem spaceBlank (c : Char) (space : (c == ' ') = true) : isBlankChar c = true := by
  rw [eq_of_beq space]
  decide

theorem wordsFound {text : List Char} (solid : isBlank text = false) (line : Nat) :
    (words line text).toOption = (Token.scan (text.dropWhile isGap) line).toOption.bind fun found =>
      (words line found.2).toOption.map (found.1 :: ·) := by
  cases scanned : Token.scan (text.dropWhile isGap) line with
  | error error =>
    rw [wordsFailed solid scanned]
    rfl
  | ok found =>
    rw [wordsScanned solid scanned]
    change _ = (words line found.2).toOption.map _
    cases words line found.2 <;> rfl

theorem wordsTail {tail : List Char} (blank : isBlank tail = true) (text : List Char)
    (line other : Nat) : (words line (text ++ tail)).toOption = (words other text).toOption := by
  by_cases white : isBlank text = true
  · have whole : isBlank (text ++ tail) = true := by rw [blankAppend, white, blank]; rfl
    rw [wordsBlank white, wordsBlank whole]
  · have solid : isBlank text = false := eq_false_of_ne_true white
    have whole : isBlank (text ++ tail) = false := by rw [blankAppend, solid]; rfl
    rw [wordsFound whole, wordsFound solid, (runInside (gapsInside solid gapBlank) tail).2,
      Token.scanTail blank _ line other]
    cases scanned : Token.scan (text.dropWhile isGap) other with
    | error error => rfl
    | ok found =>
      have shorter : found.2.length < text.length := Nat.lt_of_lt_of_le (Token.scanShorter scanned)
        (List.length_dropWhile_le isGap text)
      exact congrArg (Option.map (found.1 :: ·)) (wordsTail blank found.2 line other)
termination_by text.length

end Layout

end Offside
