import Mathlib.Data.List.TakeWhile
import Offside.Proofs.Token.Spelling

/-! What the scanners split off. Digits and names are taken as the longest runs of their characters, a
quotation up to the next mark like the one that opens it. Of the patterns of a table, the last one among
the longest that the text starts with is taken. A word is taken at a boundary only, and for this the
longest pattern is looked at and no other: where the patterns are words, no other could have ended at
a boundary. -/
namespace Offside.Text

section Runs
variable {kind : Char → Bool} {text run rest : List Char}

structure LongestRun (kind : Char → Bool) (text run rest : List Char) : Prop where
  parts : run ++ rest = text
  inside : ∀ c ∈ run, kind c = true
  longest : ∀ other, other <+: text → (∀ c ∈ other, kind c = true) → other <+: run

theorem prefixTaken {other : List Char} (begins : other <+: text)
    (all : ∀ c ∈ other, kind c = true) : other <+: text.takeWhile kind := by
  obtain ⟨more, rfl⟩ := begins
  rw [List.takeWhile_append_of_pos all]
  exact List.prefix_append _ _

theorem longestRunTaken :
    LongestRun kind text run rest ↔ text.takeWhile kind = run ∧ text.dropWhile kind = rest := by
  constructor
  · intro longest
    have begins : run <+: text := ⟨rest, longest.parts⟩
    have taken : text.takeWhile kind = run :=
      (longest.longest _ (List.takeWhile_prefix kind)
        fun _ => List.mem_takeWhile_imp).eq_of_length_le
        (prefixTaken begins longest.inside).length_le
    have parts := List.takeWhile_append_dropWhile (p := kind) (l := text)
    rw [taken, ← longest.parts] at parts
    exact ⟨taken, by rw [← longest.parts]; exact List.append_cancel_left parts⟩
  · rintro ⟨rfl, rfl⟩
    exact ⟨List.takeWhile_append_dropWhile, fun _ => List.mem_takeWhile_imp, fun _ => prefixTaken⟩

theorem longestRunStops :
    LongestRun kind text run rest ↔
      run ++ rest = text ∧ (∀ c ∈ run, kind c = true) ∧ Stops kind rest := by
  constructor
  · intro longest
    refine ⟨longest.parts, longest.inside, ?_⟩
    rw [← (longestRunTaken.mp longest).2]
    exact stopsDropWhile kind text
  · rintro ⟨rfl, inside, stops⟩
    exact longestRunTaken.mpr (takeUpTo inside stops)

theorem splitNumberExact {digits : List Char} :
    splitNumber? text = some (digits, rest) ↔ LongestRun Char.isDigit text digits rest ∧ digits ≠ [] := by
  rw [longestRunTaken]
  unfold splitNumber?
  cases text.takeWhile Char.isDigit with
  | nil =>
    constructor
    · intro found
      cases found
    · rintro ⟨⟨rfl, -⟩, nonempty⟩
      exact absurd rfl nonempty
  | cons c more =>
    constructor
    · intro found
      cases found
      simp
    · rintro ⟨⟨rfl, rfl⟩, -⟩
      rfl

theorem splitNameExact {name : List Char} :
    splitName? text = some (name, rest) ↔
      LongestRun isNameChar text name rest ∧ ∃ c ∈ text.head?, isNameStart c = true := by
  rw [longestRunTaken]
  cases text with
  | nil => simp [splitName?]
  | cons c more =>
    rw [splitName?]
    cases start : isNameStart c with
    | true => simp [start, nameStartChar start]
    | false => simp [start]

end Runs

section Quotations
variable {mark : Char} {text content rest : List Char}

theorem splitQuotedClosed :
    splitQuoted mark text = .closed content rest ↔
      mark :: content ++ mark :: rest = text ∧ mark ∉ content := by
  constructor
  · intro found
    exact ⟨splitQuotedParts found, splitQuotedFree found⟩
  · rintro ⟨rfl, free⟩
    exact splitQuotedWhole rest free

theorem splitQuotedOpen :
    splitQuoted mark text = .unterminated ↔ ∃ body, mark :: body = text ∧ mark ∉ body := by
  cases text with
  | nil => simp [splitQuoted]
  | cons c body =>
    rw [splitQuoted]
    split
    · rename_i opening
      obtain rfl : c = mark := by simpa using opening
      have free : body.dropWhile (· != c) = [] ↔ c ∉ body := by
        rw [List.dropWhile_eq_nil_iff]
        exact ⟨fun none member => by simpa using none c member,
          fun absent other member => by simpa using fun same : other = c => absent (same ▸ member)⟩
      simp only [List.cons.injEq, true_and, exists_eq_left, ← free]
      cases body.dropWhile (· != c) <;> simp
    · rename_i other
      simp only [reduceCtorEq, false_iff]
      rintro ⟨_, same, -⟩
      cases same
      simp at other

end Quotations

section Patterns
variable {α : Type} {text rest : List Char} {table : List (String × α)} {entry : String × α}

def Chosen (text : List Char) (table : List (String × α)) (entry : String × α) : Prop :=
  ∃ before behind, table = before ++ entry :: behind ∧ entry.1.toList <+: text ∧
    (∀ other ∈ before, other.1.toList <+: text → other.1.utf8ByteSize ≤ entry.1.utf8ByteSize) ∧
    ∀ other ∈ behind, other.1.toList <+: text → other.1.utf8ByteSize < entry.1.utf8ByteSize

theorem Chosen.longest (chosen : Chosen text table entry) {other : String × α}
    (member : other ∈ table) (begins : other.1.toList <+: text) :
    other.1.utf8ByteSize ≤ entry.1.utf8ByteSize := by
  obtain ⟨before, behind, rfl, -, front, back⟩ := chosen
  rcases List.mem_append.mp member with early | late
  · exact front other early begins
  · rcases List.mem_cons.mp late with rfl | late
    · exact Nat.le_refl _
    · exact Nat.le_of_lt (back other late begins)

theorem longestNone :
    longest? text table = none ↔ ∀ entry ∈ table, ¬ entry.1.toList <+: text := by
  induction table with
  | nil => simp [longest?]
  | cons head others ih =>
    rw [longest?, List.forall_mem_cons]
    cases best : longest? text others with
    | none =>
      have unmatched := ih.mp best
      rw [ite_eq_right_iff, List.isPrefixOf_iff_prefix]
      simp only [reduceCtorEq, imp_false]
      exact ⟨fun here => ⟨here, unmatched⟩, And.left⟩
    | some found =>
      have member := longestEntry best
      have some : ¬ ∀ entry ∈ others, ¬ entry.1.toList <+: text :=
        fun none => none found member.1 member.2
      simp only [some, and_false, iff_false]
      split <;> simp

theorem chosenCons {head : String × α} :
    Chosen text (head :: table) entry ↔
      (Chosen text table entry ∧
        (head.1.toList <+: text → head.1.utf8ByteSize ≤ entry.1.utf8ByteSize)) ∨
      (entry = head ∧ head.1.toList <+: text ∧
        ∀ other ∈ table, other.1.toList <+: text → other.1.utf8ByteSize < head.1.utf8ByteSize) := by
  constructor
  · rintro ⟨before, behind, parts, begins, front, back⟩
    cases before with
    | nil =>
      cases parts
      exact .inr ⟨rfl, begins, back⟩
    | cons first before =>
      cases parts
      obtain ⟨here, front⟩ := List.forall_mem_cons.mp front
      exact .inl ⟨⟨before, behind, rfl, begins, front, back⟩, here⟩
  · rintro (⟨⟨before, behind, rfl, begins, front, back⟩, here⟩ | ⟨rfl, begins, back⟩)
    · exact ⟨head :: before, behind, rfl, begins, List.forall_mem_cons.mpr ⟨here, front⟩, back⟩
    · exact ⟨[], table, rfl, begins, by simp, back⟩

theorem longestChosen : longest? text table = some entry ↔ Chosen text table entry := by
  induction table generalizing entry with
  | nil => simp [longest?, Chosen]
  | cons head others ih =>
    rw [longest?, chosenCons]
    cases best : longest? text others with
    | none =>
      have unmatched := longestNone.mp best
      rw [Option.ite_none_right_eq_some, List.isPrefixOf_iff_prefix]
      constructor
      · rintro ⟨begins, same⟩
        refine .inr ⟨(Option.some.inj same).symm, begins, fun other member matched => ?_⟩
        exact absurd matched (unmatched other member)
      · rintro (⟨chosen, -⟩ | ⟨rfl, begins, -⟩)
        · rw [ih.mpr chosen] at best
          cases best
        · exact ⟨begins, rfl⟩
    | some found =>
      have chosen := ih.mp best
      obtain ⟨member, matched⟩ := longestEntry best
      simp only [Bool.and_eq_true, List.isPrefixOf_iff_prefix, decide_eq_true_eq]
      -- the head is taken only when it is longer than the longest of the others
      split
      · rename_i longer
        constructor
        · intro same
          cases same
          refine .inr ⟨rfl, longer.1, fun other inside begins => ?_⟩
          exact Nat.lt_of_le_of_lt (chosen.longest inside begins) longer.2
        · rintro (⟨later, bound⟩ | ⟨rfl, -⟩)
          · rw [ih.mpr later] at best
            cases best
            exact absurd longer.2 (Nat.not_lt.mpr (bound longer.1))
          · rfl
      · rename_i shorter
        constructor
        · intro same
          cases same
          exact .inl ⟨chosen, fun begins => Nat.not_lt.mp fun longer => shorter ⟨begins, longer⟩⟩
        · rintro (⟨later, -⟩ | ⟨rfl, begins, bound⟩)
          · rw [← best]
            exact ih.mpr later
          · exact absurd ⟨begins, bound found member matched⟩ shorter

theorem splitPatternSome :
    (splitPattern? table text).isSome = true ↔ ∃ entry ∈ table, entry.1.toList <+: text := by
  rw [splitPattern?, Option.isSome_map, Option.isSome_iff_ne_none, ne_eq, longestNone]
  simp

theorem splitPatternExact {value : α} :
    splitPattern? table text = some (value, rest) ↔
      ∃ pattern, Chosen text table (pattern, value) ∧ pattern.toList ++ rest = text := by
  simp only [splitPattern?, Option.map_eq_some_iff, longestChosen, Prod.mk.injEq]
  constructor
  · rintro ⟨⟨pattern, value⟩, chosen, rfl, rfl⟩
    refine ⟨pattern, chosen, ?_⟩
    obtain ⟨-, -, -, ⟨more, parts⟩, -⟩ := chosen
    rw [← String.length_toList, ← parts, List.drop_left]
  · rintro ⟨pattern, chosen, rfl⟩
    exact ⟨(pattern, value), chosen, rfl, by rw [← String.length_toList, List.drop_left]⟩

theorem splitWordStops {value : α} :
    splitWord? table text = some (value, rest) ↔
      splitPattern? table text = some (value, rest) ∧ Stops isNameChar rest := by
  unfold splitWord?
  cases found : splitPattern? table text with
  | none => simp
  | some pair =>
    obtain ⟨other, after⟩ := pair
    cases after with
    | nil =>
      refine ⟨fun same => ⟨same, ?_⟩, And.left⟩
      cases same
      exact stopsNil _
    | cons c more =>
      dsimp only
      rw [Option.ite_none_left_eq_some]
      constructor
      · rintro ⟨boundary, same⟩
        refine ⟨same, fun first head => ?_⟩
        cases same
        cases head
        simpa using boundary
      · rintro ⟨same, stops⟩
        cases same
        exact ⟨by simp [stops c rfl], rfl⟩

theorem prefixSize {first second : String} (begins : first.toList <+: second.toList) :
    first.utf8ByteSize ≤ second.utf8ByteSize ∧
      (second.utf8ByteSize ≤ first.utf8ByteSize → first = second) := by
  obtain ⟨more, parts⟩ := begins
  have joined : second = first ++ String.ofList more := by
    rw [← String.toList_inj, String.toList_append, String.toList_ofList, parts]
  rw [joined, String.utf8ByteSize_append]
  refine ⟨Nat.le_add_right _ _, fun bound => ?_⟩
  have nothing : String.ofList more = "" := String.utf8ByteSize_eq_zero_iff.mp (by omega)
  rw [nothing, String.append_empty]

def Words (table : List (String × α)) : Prop :=
  ∀ entry ∈ table, ∀ c ∈ entry.1.toList, isNameChar c = true

theorem Chosen.member (chosen : Chosen text table entry) : entry ∈ table := by
  obtain ⟨before, behind, rfl, -⟩ := chosen
  exact List.mem_append_right _ List.mem_cons_self

theorem splitWordExact (words : Words table) {value : α} :
    splitWord? table text = some (value, rest) ↔
      ∃ pattern, Chosen text table (pattern, value) ∧
        LongestRun isNameChar text pattern.toList rest := by
  rw [splitWordStops, splitPatternExact]
  constructor
  · rintro ⟨⟨pattern, chosen, parts⟩, stops⟩
    exact ⟨pattern, chosen, longestRunStops.mpr ⟨parts, words _ chosen.member, stops⟩⟩
  · rintro ⟨pattern, chosen, run⟩
    obtain ⟨parts, -, stops⟩ := longestRunStops.mp run
    exact ⟨⟨pattern, chosen, parts⟩, stops⟩

/- A pattern that ends at a boundary is the whole run of letters. A longer one would end beyond the run,
so the one that is looked at is this one. -/
theorem splitWordSome (words : Words table) :
    (splitWord? table text).isSome = true ↔
      ∃ entry ∈ table, ∃ rest, LongestRun isNameChar text entry.1.toList rest := by
  constructor
  · intro found
    obtain ⟨⟨value, rest⟩, found⟩ := Option.isSome_iff_exists.mp found
    obtain ⟨pattern, chosen, run⟩ := (splitWordExact words).mp found
    exact ⟨(pattern, value), chosen.member, rest, run⟩
  · rintro ⟨entry, member, rest, run⟩
    have begins : entry.1.toList <+: text := ⟨rest, run.parts⟩
    obtain ⟨⟨value, after⟩, found⟩ :=
      Option.isSome_iff_exists.mp (splitPatternSome.mpr ⟨entry, member, begins⟩)
    obtain ⟨pattern, chosen, parts⟩ := splitPatternExact.mp found
    have inside : pattern.toList <+: entry.1.toList :=
      run.longest _ ⟨after, parts⟩ (words _ chosen.member)
    have same : pattern = entry.1 := (prefixSize inside).2 (chosen.longest member begins)
    rw [← same] at run
    rw [(splitWordExact words).mpr ⟨pattern, chosen, run⟩]
    rfl

end Patterns

theorem scannersExact {α : Type} (table : List (String × α)) (text : List Char) :
    (∀ digits rest, splitNumber? text = some (digits, rest) ↔
      LongestRun Char.isDigit text digits rest ∧ digits ≠ []) ∧
    (∀ name rest, splitName? text = some (name, rest) ↔
      LongestRun isNameChar text name rest ∧ ∃ c ∈ text.head?, isNameStart c = true) ∧
    (∀ mark content rest, splitQuoted mark text = .closed content rest ↔
      mark :: content ++ mark :: rest = text ∧ mark ∉ content) ∧
    (∀ mark, splitQuoted mark text = .unterminated ↔ ∃ body, mark :: body = text ∧ mark ∉ body) ∧
    ((splitPattern? table text).isSome = true ↔ ∃ entry ∈ table, entry.1.toList <+: text) ∧
    (∀ value rest, splitPattern? table text = some (value, rest) ↔
      ∃ pattern, Chosen text table (pattern, value) ∧ pattern.toList ++ rest = text) ∧
    (Words table →
      ((splitWord? table text).isSome = true ↔
        ∃ entry ∈ table, ∃ rest, LongestRun isNameChar text entry.1.toList rest) ∧
      ∀ value rest, splitWord? table text = some (value, rest) ↔
        ∃ pattern, Chosen text table (pattern, value) ∧
          LongestRun isNameChar text pattern.toList rest) :=
  ⟨fun _ _ => splitNumberExact, fun _ _ => splitNameExact, fun _ _ _ => splitQuotedClosed,
    fun _ => splitQuotedOpen, splitPatternSome, fun _ _ => splitPatternExact,
    fun words => ⟨splitWordSome words, fun _ _ => splitWordExact words⟩⟩

theorem scannersExactWords :
    Words [("print", 1), ("pri", 2), ("not", 3)] ∧
    (splitWord? [("print", 1), ("pri", 2), ("not", 3)] "pri=".toList).isSome = true ∧
    ¬ (splitWord? [("print", 1), ("pri", 2), ("not", 3)] "prints".toList).isSome = true := by
  have words : Words [("print", 1), ("pri", 2), ("not", 3)] := by
    have spelled : [("print", 1), ("pri", 2), ("not", 3)].all
        (fun entry => entry.1.toList.all isNameChar) = true := by decide
    exact fun entry member => List.all_eq_true.mp (List.all_eq_true.mp spelled entry member)
  refine ⟨words, ?_, fun found => ?_⟩
  · obtain ⟨-, -, -, -, -, -, word⟩ := scannersExact [("print", 1), ("pri", 2), ("not", 3)] "pri=".toList
    exact (word words).1.mpr
      ⟨("pri", 2), by decide, ['='], longestRunTaken.mpr ⟨by decide, by decide⟩⟩
  · obtain ⟨-, -, -, -, -, -, word⟩ :=
      scannersExact [("print", 1), ("pri", 2), ("not", 3)] "prints".toList
    obtain ⟨entry, member, rest, run⟩ := (word words).1.mp found
    have whole : "prints".toList = entry.1.toList := (longestRunTaken.mp run).1
    simp only [List.mem_cons, List.not_mem_nil, or_false] at member
    rcases member with rfl | rfl | rfl <;> exact absurd whole (by decide)

end Offside.Text
