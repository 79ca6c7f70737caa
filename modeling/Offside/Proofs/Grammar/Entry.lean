import Offside.Proofs.Grammar.Shape

/-! Where the classes of a table come from. A class is entered at the end of its definition, so what is
before it in the table is what was known there: its parent among the classes known at its header,
its body in terms of the classes known on the way, its name free of all of them. -/
namespace Offside

namespace ClassTable

def upTo (table : ClassTable) (count : Nat) : ClassTable :=
  { table with classes := table.classes.take count }

theorem getUpTo (table : ClassTable) {count id : Nat} (within : id < count) :
    (table.upTo count).get? id = table.get? id := by
  simp only [get?, upTo, Array.take_eq_extract, Array.getElem?_extract, Nat.zero_add,
    Nat.sub_zero]
  split
  · rfl
  · exact (Array.getElem?_eq_none (by omega)).symm

theorem sizeUpTo (table : ClassTable) (count : Nat) :
    (table.upTo count).classes.size = min count table.classes.size := by
  simp [upTo]

theorem upToUpTo (table : ClassTable) {fewer count : Nat} (within : fewer ≤ count) :
    (table.upTo count).upTo fewer = table.upTo fewer := by
  simp [upTo, Nat.min_eq_left within]

theorem upToDeclare (table : ClassTable) (name : String) (parent : Option ClassId)
    (methods : List Method) {count : Nat} (within : count ≤ table.classes.size) :
    (table.declare name parent methods).upTo count = table.upTo count := by
  simp [upTo, declare, within]

theorem nameOfGet {left right : ClassTable} {id : ClassId} (same : left.get? id = right.get? id) :
    left.nameOf id = right.nameOf id := by
  rw [nameOf, nameOf, same]

theorem getKnown {table : ClassTable} {id : ClassId} {cls : ClassDef}
    (held : table.get? id = some cls) : id < table.classes.size :=
  (Array.getElem?_eq_some_iff.mp held).1

def Extends (before after : ClassTable) : Prop := after.upTo before.classes.size = before

namespace Extends

theorem refl (table : ClassTable) : Extends table table := by
  simp [Extends, upTo]

theorem size {before after : ClassTable} (grown : Extends before after) :
    before.classes.size ≤ after.classes.size := by
  have sizes := congrArg (·.classes.size) grown
  simp only [sizeUpTo] at sizes
  omega

theorem same {before after : ClassTable} (grown : Extends before after) {count : Nat}
    (within : count ≤ before.classes.size) : after.upTo count = before.upTo count := by
  rw [← upToUpTo after within, grown]

theorem get {before after : ClassTable} (grown : Extends before after) {id : ClassId}
    (known : id < before.classes.size) : after.get? id = before.get? id := by
  rw [← getUpTo after known, grown]

theorem trans {before between after : ClassTable} (first : Extends before between)
    (second : Extends between after) : Extends before after :=
  (second.same first.size).trans first

theorem declare (table : ClassTable) (name : String) (parent : Option ClassId)
    (methods : List Method) : Extends table (table.declare name parent methods) :=
  (upToDeclare table name parent methods (Nat.le_refl _)).trans (refl table)

end Extends

theorem findNone {table : ClassTable} {name : String} (all : table.hidden = 0)
    (free : table.find? name = none) {id : ClassId} (known : id < table.classes.size) :
    table.nameOf id ≠ name := by
  have visible : id ∈ table.visible := by
    rw [ClassTable.visible, all, List.drop_zero, List.mem_reverse]
    exact List.mem_range.mpr known
  have differ := List.find?_eq_none.mp free id visible
  simpa using differ

end ClassTable

namespace Grammar
open ClassTable

def definitionTokens (name : String) (base body : List Token) : List Token :=
  .keyword .classK :: .identifier name :: base ++
    .char ':' :: .newline :: .indent :: body ++ [.dedent]

/-- A class was entered by the definition with these tokens. When `start` classes had ended its base
was found among them; its body went on from these classes to the ones before it in the table. -/
inductive Entered (table : ClassTable) (id : ClassId) : List Token → Prop where
  | definition {start : Nat} {name : String} {base body : List Token} {parent : Option ClassId}
      {methods : List Method} (early : start ≤ id)
      (inherits : Base (table.upTo start) base parent)
      (declared : Derives .methods (table.upTo start) body methods (table.upTo id))
      (nonempty : methods ≠ []) (free : (table.upTo id).find? name = none)
      (held : table.get? id = some ((table.upTo id).newClass name parent methods)) :
      Entered table id (definitionTokens name base body)

theorem Entered.later {table after : ClassTable} {id : ClassId} {tokens : List Token}
    (entered : Entered table id tokens) (grown : table.Extends after) :
    Entered after id tokens := by
  cases entered with
  | definition early inherits declared nonempty free held =>
    have known := getKnown held
    have atEnd := grown.same (Nat.le_of_lt known)
    have atStart := grown.same (Nat.le_trans early (Nat.le_of_lt known))
    rw [← atStart] at inherits declared
    rw [← atEnd] at declared free held
    exact .definition early inherits declared nonempty free ((grown.get known).trans held)

structure Accounts (before : ClassTable) (tokens : List Token) (after : ClassTable) : Prop where
  grown : before.Extends after
  entered : ∀ {id}, before.classes.size ≤ id → id < after.classes.size →
    ∃ part, part <:+: tokens ∧ Entered after id part

namespace Accounts

theorem refl (table : ClassTable) (tokens : List Token) : Accounts table tokens table where
  grown := .refl table
  entered later known := absurd known (Nat.not_lt.mpr later)

theorem widen {before after : ClassTable} {tokens whole : List Token}
    (accounts : Accounts before tokens after) (inside : tokens <:+: whole) :
    Accounts before whole after where
  grown := accounts.grown
  entered later known := by
    obtain ⟨part, within, entered⟩ := accounts.entered later known
    exact ⟨part, within.trans inside, entered⟩

theorem trans {before between after : ClassTable} {tokens : List Token}
    (first : Accounts before tokens between) (second : Accounts between tokens after) :
    Accounts before tokens after where
  grown := first.grown.trans second.grown
  entered := by
    intro id later known
    by_cases old : id < between.classes.size
    · obtain ⟨part, within, entered⟩ := first.entered later old
      exact ⟨part, within, entered.later second.grown⟩
    · exact second.entered (Nat.not_lt.mp old) known

theorem declare {before after : ClassTable} {name : String} {base body : List Token}
    {parent : Option ClassId} {methods : List Method} (accounts : Accounts before body after)
    (inherits : Base before base parent) (declared : Derives .methods before body methods after)
    (nonempty : methods ≠ []) (free : after.find? name = none) :
    Accounts before (definitionTokens name base body) (after.declare name parent methods) := by
  have step := Extends.declare after name parent methods
  have inside : body <:+: definitionTokens name base body :=
    ⟨.keyword .classK :: .identifier name :: base ++ [.char ':', .newline, .indent], [.dedent],
      by simp [definitionTokens]⟩
  refine (accounts.widen inside).trans ⟨step, fun {id} later known => ?_⟩
  have last : id = after.classes.size := by
    rw [ClassTable.declare, Array.size_push] at known
    omega
  subst last
  have atEnd : (after.declare name parent methods).upTo after.classes.size = after := step
  have atStart : (after.declare name parent methods).upTo before.classes.size = before :=
    accounts.grown.trans step
  refine ⟨_, List.infix_refl _, @Entered.definition _ _ _ _ _ _ parent _ accounts.grown.size ?_ ?_
    nonempty ?_ ?_⟩
  · rwa [atStart]
  · rwa [atStart, atEnd]
  · rwa [atEnd]
  · rw [atEnd, getDeclare, if_pos rfl]

end Accounts

theorem Derives.accounts {phrase : Phrase} {before after : ClassTable} {tokens : List Token}
    {tree : phrase.Tree} (derived : Derives phrase before tokens tree after) :
    Accounts before tokens after := by
  induction derived with
  | simple | finished | noMethods => exact .refl _ _
  | @branch _ _ test body _ _ _ _ positive =>
    exact positive.widen ⟨.keyword .ifK :: test ++ [.char ':'], [], by simp⟩
  | @branchElse _ _ _ test body other _ _ _ _ _ _ positive negative =>
    refine (positive.widen ?_).trans (negative.widen ?_)
    · exact ⟨.keyword .ifK :: test ++ [.char ':'], .keyword .elseK :: .char ':' :: other, by simp⟩
    · exact ⟨.keyword .ifK :: test ++ .char ':' :: body ++ [.keyword .elseK, .char ':'], [],
        by simp⟩
  | define inherits declared nonempty free inside =>
    exact inside.declare inherits declared nonempty free
  | next _ _ head rest =>
    exact (head.widen (List.prefix_append _ _).isInfix).trans
      (rest.widen (List.suffix_append _ _).isInfix)
  | suite _ _ inside => exact inside.widen ⟨[.newline, .indent], [.dedent], by simp⟩
  | @method _ _ _ name params body others _ _ _ _ inside rest =>
    refine (inside.widen ?_).trans (rest.widen (List.suffix_append _ _).isInfix)
    exact ⟨.keyword .defK :: .identifier name :: .char '(' :: separated ',' params ++
      [.char ')', .char ':'], others, by simp⟩

namespace Entered

variable {table : ClassTable} {id : ClassId} {tokens : List Token}

theorem parent (entered : Entered table id tokens) {cls : ClassDef} {parent : ClassId}
    (held : table.get? id = some cls) (above : cls.parent = some parent) : parent < id := by
  cases entered with
  | definition early inherits _ _ _ found =>
    rw [found] at held
    cases held
    have known := inherits.known parent above
    rw [sizeUpTo] at known
    exact Nat.lt_of_lt_of_le (Nat.lt_min.mp known).1 early

theorem fresh (entered : Entered table id tokens) (all : table.hidden = 0) {other : ClassId}
    (earlier : other < id) : table.nameOf other ≠ table.nameOf id := by
  cases entered with
  | @definition _ name _ _ _ _ _ _ _ _ free held =>
    have named : table.nameOf id = name := by rw [nameOf, held]; rfl
    have known := getKnown held
    have before : other < (table.upTo id).classes.size := by
      rw [sizeUpTo]
      exact Nat.lt_min.mpr ⟨earlier, Nat.lt_trans earlier known⟩
    have differ : (table.upTo id).nameOf other ≠ name :=
      @findNone (table.upTo id) name all free other before
    rwa [named, ← nameOfGet (getUpTo table earlier)]

end Entered

theorem Accounts.distinct {table : ClassTable} {tokens : List Token}
    (accounts : Accounts .empty tokens table) {first second : ClassId}
    (left : first < table.classes.size) (right : second < table.classes.size)
    (same : table.nameOf first = table.nameOf second) : first = second := by
  have all : table.hidden = 0 := congrArg (·.hidden) accounts.grown
  obtain ⟨_, -, enteredFirst⟩ := accounts.entered (Nat.zero_le first) left
  obtain ⟨_, -, enteredSecond⟩ := accounts.entered (Nat.zero_le second) right
  rcases Nat.lt_trichotomy first second with earlier | rfl | later
  · exact absurd same (enteredSecond.fresh all earlier)
  · rfl
  · exact absurd same.symm (enteredFirst.fresh all later)

end Grammar

end Offside
