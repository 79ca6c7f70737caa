import Offside.Execution.Operators
import Offside.Proofs.Text.Order

/-! Comparing values. Two integers can be compared, and two strings, and nothing else. What the six
comparisons say of them comes from one linear order: integers by their size, strings by the bytes of
their encoding or, which is the same, by their code points. All other values are refused by all six,
in the name of the comparison that the one at hand is derived from. -/
namespace Offside.Comparison

structure Linear (judge : Relation → Value → Value → Except RuntimeError Bool) (left right : Value)
    (verdict : Relation → Bool) : Prop where
  given : ∀ relation, judge relation left right = .ok (verdict relation)
  same : verdict .equal = true ↔ left = right
  single : [Relation.less, .equal, .greater].countP verdict = 1
  orSame : verdict .lessOrEqual = (verdict .less || verdict .equal)
  notLess : verdict .greaterOrEqual = !verdict .less
  notSame : verdict .notEqual = !verdict .equal
  exchanged : judge .less right left = .ok (verdict .greater)
  onward : ∀ third, verdict .less = true → judge .less right third = .ok true →
    judge .less left third = .ok true

/- A kind of values that are compared by their keys. -/
structure Kind (κ α : Type) [LinearOrder α] where
  make : κ → Value
  key : κ → α
  distinct : ∀ first second, make first = make second ↔ key first = key second
  equals : ∀ first second, (make first).equals? (make second) =
    some (decide (key first = key second))
  precedes : ∀ first second, (make first).precedes? (make second) =
    some (decide (key first < key second))
  closed : ∀ first value verdict, (make first).precedes? value = some verdict →
    ∃ second, value = make second

def Kind.numbers : Kind Int64 Int where
  make := .number
  key := Int64.toInt
  distinct first second := by rw [Value.number.injEq, Int64.toInt_inj]
  equals first second := by
    rw [Value.equals?, Option.some.injEq, Bool.eq_iff_iff, beq_iff_eq, decide_eq_true_eq,
      Int64.toInt_inj]
  precedes first second := by
    simp only [Value.precedes?, Int64.lt_iff_toInt_lt]
  closed first value verdict found := by
    cases value with
    | number second => exact ⟨second, rfl⟩
    | _ => cases found

def Kind.strings : Kind String String where
  make := .string
  key := id
  distinct first second := by rw [Value.string.injEq, id, id]
  equals first second := rfl
  precedes first second := rfl
  closed first value verdict found := by
    cases value with
    | string second => exact ⟨second, rfl⟩
    | _ => cases found

def byOrder {α : Type} [LinearOrder α] (first second : α) : Relation → Bool
  | .equal => decide (first = second)
  | .notEqual => decide (first ≠ second)
  | .less => decide (first < second)
  | .greater => decide (second < first)
  | .lessOrEqual => decide (first ≤ second)
  | .greaterOrEqual => decide (second ≤ first)

section Kinds

variable {κ α : Type} [LinearOrder α] (kind : Kind κ α) (classes : ClassTable) (heap : Heap)

theorem Kind.decided (relation : Relation) (first second : κ) :
    relation.decide classes heap (kind.make first) (kind.make second) =
      .ok (byOrder (kind.key first) (kind.key second) relation) := by
  have held : relation.holds? (kind.make first) (kind.make second) =
      some (byOrder (kind.key first) (kind.key second) relation) := by
    simp only [Relation.holds?, kind.equals, kind.precedes]
    cases relation with
    | equal | less => rfl
    | notEqual => simp only [Option.map_some, byOrder, ne_eq, decide_not]
    | greater =>
      have above : kind.key second < kind.key first ↔
          ¬ kind.key first < kind.key second ∧ ¬ kind.key first = kind.key second := by
        rw [not_lt, lt_iff_le_and_ne, ne_comm]
      change some (!_ && !_) = _
      simp only [byOrder, above, Bool.decide_and, decide_not]
    | lessOrEqual =>
      change some (_ || _) = _
      simp only [byOrder, le_iff_lt_or_eq, Bool.decide_or]
    | greaterOrEqual => simp only [Option.map_some, byOrder, ← not_lt, decide_not]
  rw [Relation.decide, held]

theorem Kind.linear (first second : κ) :
    Linear (fun relation left right => relation.decide classes heap left right) (kind.make first)
      (kind.make second) (byOrder (kind.key first) (kind.key second)) where
  given relation := kind.decided classes heap relation first second
  same := by rw [kind.distinct, byOrder, decide_eq_true_eq]
  single := by
    simp only [List.countP_cons, List.countP_nil, byOrder, decide_eq_true_eq]
    rcases lt_trichotomy (kind.key first) (kind.key second) with below | same | above
    · simp [below, below.ne, below.not_gt]
    · simp [same]
    · simp [above, above.ne', above.not_gt]
  orSame := by simp only [byOrder, le_iff_lt_or_eq, Bool.decide_or]
  notLess := by simp only [byOrder, ← decide_not, not_lt]
  notSame := by simp only [byOrder, ← decide_not]
  exchanged := kind.decided classes heap .less second first
  onward third below further := by
    have reached : ∃ verdict, (kind.make second).precedes? third = some verdict := by
      simp only [Relation.decide, Relation.holds?] at further
      cases found : (kind.make second).precedes? third with
      | some verdict => exact ⟨verdict, rfl⟩
      | none =>
        rw [found] at further
        cases further
    obtain ⟨verdict, found⟩ := reached
    obtain ⟨last, rfl⟩ := kind.closed second third verdict found
    rw [kind.decided, Except.ok.injEq, byOrder, decide_eq_true_eq] at further ⊢
    exact lt_trans (of_decide_eq_true below) further

end Kinds

theorem comparable (left right : Value) :
    (∃ first second, left = .number first ∧ right = .number second) ∨
    (∃ first second, left = .string first ∧ right = .string second) ∨
    left.equals? right = none ∧ left.precedes? right = none := by
  cases left with
  | number first =>
    cases right with
    | number second => exact .inl ⟨first, second, rfl, rfl⟩
    | _ => exact .inr (.inr ⟨rfl, rfl⟩)
  | string first =>
    cases right with
    | string second => exact .inr (.inl ⟨first, second, rfl, rfl⟩)
    | _ => exact .inr (.inr ⟨rfl, rfl⟩)
  | _ => exact .inr (.inr ⟨rfl, rfl⟩)

theorem refused {left right : Value} (equals : left.equals? right = none)
    (precedes : left.precedes? right = none) (classes : ClassTable) (heap : Heap)
    (relation : Relation) : relation.decide classes heap left right =
      .error (.operandTypes (if relation = .equal ∨ relation = .notEqual then "==" else "<")
        (left.typeName classes heap) (right.typeName classes heap)) := by
  have unheld : relation.holds? left right = none := by
    cases relation <;> simp only [Relation.holds?, equals, precedes] <;> rfl
  rw [Relation.decide, unheld]
  cases relation <;> rfl

theorem comparisonsLinear (classes : ClassTable) (heap : Heap) (left right : Value) :
    (∃ verdict, Linear (fun relation first second => relation.decide classes heap first second)
        left right verdict ∧
      ((∃ first second, left = .number first ∧ right = .number second ∧
        (verdict .less = true ↔ first.toInt < second.toInt)) ∨
      ∃ first second, left = .string first ∧ right = .string second ∧
        (verdict .less = true ↔ Text.bytes first < Text.bytes second) ∧
        (verdict .less = true ↔ Text.codes first < Text.codes second))) ∨
    (¬ (∃ first second, left = .number first ∧ right = .number second) ∧
      ¬ (∃ first second, left = .string first ∧ right = .string second) ∧
      ∀ relation : Relation, relation.decide classes heap left right =
        .error (.operandTypes (if relation = .equal ∨ relation = .notEqual then "==" else "<")
          (left.typeName classes heap) (right.typeName classes heap))) := by
  rcases comparable left right with ⟨first, second, rfl, rfl⟩ | ⟨first, second, rfl, rfl⟩ |
    ⟨equals, precedes⟩
  · have linear := Kind.numbers.linear classes heap first second
    exact .inl ⟨_, linear, .inl ⟨first, second, rfl, rfl, decide_eq_true_iff⟩⟩
  · have linear := Kind.strings.linear classes heap first second
    have byBytes := Text.bytesStrict.lt_iff_lt (a := first) (b := second)
    have byCodes := Text.codesStrict.lt_iff_lt (a := first) (b := second)
    exact .inl ⟨_, linear, .inr ⟨first, second, rfl, rfl, decide_eq_true_iff.trans byBytes.symm,
      decide_eq_true_iff.trans byCodes.symm⟩⟩
  · refine .inr ⟨fun numbers => ?_, fun strings => ?_, refused equals precedes classes heap⟩
    · obtain ⟨first, second, rfl, rfl⟩ := numbers
      cases equals
    · obtain ⟨first, second, rfl, rfl⟩ := strings
      cases equals

end Offside.Comparison
