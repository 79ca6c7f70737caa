import Mathlib.Data.Rat.Floor
import Offside.Execution.Statement

/-! Arithmetic on integer constants. The value of a formula is what it is among all the integers, and its
nodes are looked at in the order in which their operations come up. The first one that has no value
in 64 bits is what the execution fails with; where there is none, the value is exact. -/
namespace Offside

inductive Formula where
  | number (word : Int64)
  | operation (op : ArithmeticOp) (left right : Formula)
  deriving DecidableEq, Repr

namespace Formula

def tree : Formula → Stmt
  | number word => .number word
  | operation op left right => .arithmetic op left.tree right.tree

def truncated (fraction : ℚ) : Int := if 0 ≤ fraction then ⌊fraction⌋ else ⌈fraction⌉

def meaning : ArithmeticOp → Int → Int → Int
  | .add, left, right => left + right
  | .subtract, left, right => left - right
  | .multiply, left, right => left * right
  | .divide, left, right => truncated (left / right)

def value : Formula → Int
  | number word => word.toInt
  | operation op left right => meaning op left.value right.value

def postorder : Formula → List Formula
  | number word => [number word]
  | operation op left right => left.postorder ++ right.postorder ++ [operation op left right]

def InRange (number : Int) : Prop := -2 ^ 63 ≤ number ∧ number ≤ 2 ^ 63 - 1

instance : DecidablePred InRange := fun number => by unfold InRange; infer_instance

def fault? : Formula → Option RuntimeError
  | number _ => none
  | operation op left right =>
    if op = .divide ∧ right.value = 0 then some .divisionByZero
    else if InRange (meaning op left.value right.value) then none
    else some (.overflow op.symbol)

def firstFault? (formula : Formula) : Option RuntimeError := formula.postorder.findSome? fault?

theorem truncatedOver (left : Int) (right : Nat) : truncated (left / right) = left.tdiv right := by
  unfold truncated
  split
  · rename_i positive
    rw [Rat.floor_intCast_div_natCast]
    rcases Nat.eq_zero_or_pos right with rfl | nonzero
    · simp
    · have divisor : (0 : ℚ) < right := by exact_mod_cast nonzero
      have whole : (0 : ℚ) ≤ left := by rwa [le_div_iff₀ divisor, zero_mul] at positive
      rw [Int.tdiv_eq_ediv_of_nonneg (by exact_mod_cast whole)]
  · rename_i negative
    have below : left ≤ 0 := by
      by_contra above
      have whole : (0 : ℚ) ≤ left := by exact_mod_cast (not_le.mp above).le
      exact negative (div_nonneg whole (Nat.cast_nonneg right))
    rw [Rat.ceil_intCast_div_natCast, ← Int.tdiv_eq_ediv_of_nonneg (by omega), Int.neg_tdiv, neg_neg]

theorem truncatedQuotient (left right : Int) : truncated (left / right) = left.tdiv right := by
  obtain ⟨size, rfl | rfl⟩ := right.eq_nat_or_neg
  · exact truncatedOver left size
  · have turned : (left : ℚ) / ((-(size : Int) : Int) : ℚ) = ((-left : Int) : ℚ) / (size : ℚ) := by
      push_cast
      rw [div_neg, neg_div]
    rw [turned, truncatedOver, Int.neg_tdiv, Int.tdiv_neg]

theorem meaningExact (op : ArithmeticOp) (left right : Int) :
    meaning op left right = op.exact left right := by
  cases op with
  | divide => exact truncatedQuotient left right
  | _ => rfl

theorem firstFaultOperation (op : ArithmeticOp) (left right : Formula) :
    (operation op left right).firstFault? =
      (left.firstFault?.or right.firstFault?).or (operation op left right).fault? := by
  simp only [firstFault?, postorder, List.findSome?_append, List.findSome?_singleton]

theorem wordRange (word : Int64) : InRange word.toInt := by
  have least := word.le_toInt
  have most := word.toInt_lt
  unfold InRange
  omega

theorem applyExact (op : ArithmeticOp) {left right : Formula} {first second : Int64}
    (before : first.toInt = left.value) (behind : second.toInt = right.value) :
    match (operation op left right).fault? with
    | some error => op.apply first second = .error error
    | none => ∃ word, op.apply first second = .ok word ∧
        word.toInt = (operation op left right).value := by
  have zero : second = 0 ↔ right.value = 0 := by
    rw [← behind, ← Int64.toInt_inj]
    rfl
  rw [fault?, ArithmeticOp.apply, before, behind, ← meaningExact]
  by_cases division : op = .divide ∧ right.value = 0
  · rw [if_pos division, if_pos (division.imp_right zero.mpr)]
  · have other : ¬ (op = .divide ∧ second = 0) := fun same => division (same.imp_right zero.mp)
    rw [if_neg division, if_neg other]
    cases found : Integer.ofInt? (meaning op left.value right.value) with
    | some word =>
      have exact := Integer.ofIntExact found
      rw [← exact, if_pos (wordRange word)]
      exact ⟨word, rfl, exact⟩
    | none =>
      have outside := Integer.ofIntNone.mp found
      rw [if_neg (by unfold InRange; omega)]

theorem faultlessRange {formula : Formula} (faultless : formula.firstFault? = none) :
    InRange formula.value := by
  cases formula with
  | number word => exact wordRange word
  | operation op left right =>
    rw [firstFaultOperation, Option.or_eq_none_iff, fault?] at faultless
    obtain ⟨-, faultless⟩ := faultless
    split at faultless
    · cases faultless
    · split at faultless
      · assumption
      · cases faultless

theorem quotientRange {left right : Int} (range : InRange left) (divisible : right ≠ 0) :
    InRange (left.tdiv right) ↔ ¬ (left = -2 ^ 63 ∧ right = -1) := by
  unfold InRange at range ⊢
  by_cases opposite : right = -1
  · rw [opposite, Int.tdiv_neg, Int.tdiv_one]
    omega
  · by_cases same : right = 1
    · rw [same, Int.tdiv_one]
      omega
    · have half : (left.tdiv right).natAbs ≤ left.natAbs / 2 := by
        rw [Int.natAbs_tdiv]
        exact Nat.div_le_div_left (by omega) (by decide)
      omega

theorem quotientFault {left right : Formula} (before : left.firstFault? = none)
    (divisible : right.value ≠ 0) :
    (operation .divide left right).fault? = some (.overflow ArithmeticOp.divide.symbol) ↔
      left.value = -2 ^ 63 ∧ right.value = -1 := by
  have range := quotientRange (faultlessRange before) divisible
  have exact : meaning .divide left.value right.value = left.value.tdiv right.value :=
    meaningExact .divide left.value right.value
  rw [fault?, if_neg fun zero => divisible zero.2, exact]
  by_cases inside : InRange (left.value.tdiv right.value)
  · simpa [inside] using range.mp inside
  · simpa [inside] using not_not.mp (mt range.mpr inside)

variable (classes : ClassTable) (dispatch : Dispatch)

theorem execOperation (op : ArithmeticOp) {left right : Formula} {first second : Int64} {state : State}
    (before : left.tree.exec classes dispatch state = .done (.number first) state)
    (behind : right.tree.exec classes dispatch state = .done (.number second) state) :
    (operation op left right).tree.exec classes dispatch state =
      Machine.ofExcept ((op.apply first second).map .number) state := by
  rw [tree, Stmt.exec, Machine.bindOf before, Machine.bindOf behind]
  rfl

theorem execFirstFault (formula : Formula) (state : State) :
    match formula.firstFault? with
    | some error => formula.tree.exec classes dispatch state = .failed error state
    | none => ∃ word, formula.tree.exec classes dispatch state = .done (.number word) state ∧
        word.toInt = formula.value := by
  induction formula with
  | number word =>
    refine ⟨word, ?_, rfl⟩
    rw [tree, Stmt.exec]
    rfl
  | operation op left right ihLeft ihRight =>
    rw [firstFaultOperation]
    cases atLeft : left.firstFault? with
    | some error =>
      rw [atLeft] at ihLeft
      change (operation op left right).tree.exec classes dispatch state = .failed error state
      rw [tree, Stmt.exec, Machine.bindRun, ihLeft]
    | none =>
      rw [atLeft] at ihLeft
      obtain ⟨first, ranLeft, exactLeft⟩ := ihLeft
      cases atRight : right.firstFault? with
      | some error =>
        rw [atRight] at ihRight
        change (operation op left right).tree.exec classes dispatch state = .failed error state
        rw [tree, Stmt.exec, Machine.bindOf ranLeft, Machine.bindRun, ihRight]
      | none =>
        rw [atRight] at ihRight
        obtain ⟨second, ranRight, exactRight⟩ := ihRight
        have applied := applyExact op exactLeft exactRight
        have ran := execOperation classes dispatch op ranLeft ranRight
        simp only [Option.none_or]
        cases atNode : (operation op left right).fault? with
        | some error =>
          rw [atNode] at applied
          dsimp only at applied ⊢
          rw [ran, applied]
          rfl
        | none =>
          rw [atNode] at applied
          obtain ⟨word, result, exact⟩ := applied
          refine ⟨word, ?_, exact⟩
          rw [ran, result]
          rfl

theorem execArithmetic (formula : Formula) (state : State) :
    (∀ error, formula.firstFault? = some error →
      formula.tree.exec classes dispatch state = .failed error state) ∧
    (formula.firstFault? = none → ∃ word,
      formula.tree.exec classes dispatch state = .done (.number word) state ∧
        word.toInt = formula.value) ∧
    (∀ node ∈ formula.postorder, ∀ result after,
      node.tree.exec classes dispatch state = .done result after →
        ∃ word, result = .number word ∧ word.toInt = node.value) ∧
    ∀ left right, operation .divide left right ∈ formula.postorder → left.firstFault? = none →
      right.value ≠ 0 →
        ((operation .divide left right).fault? = some (.overflow ArithmeticOp.divide.symbol) ↔
          left.value = -2 ^ 63 ∧ right.value = -1) := by
  have ends := execFirstFault classes dispatch formula state
  refine ⟨fun error first => ?_, fun faultless => ?_, fun node _ result after ran => ?_, ?_⟩
  · rw [first] at ends
    exact ends
  · rw [faultless] at ends
    exact ends
  · have ends := execFirstFault classes dispatch node state
    cases first : node.firstFault? with
    | some error =>
      rw [first] at ends
      cases ran.symm.trans ends
    | none =>
      rw [first] at ends
      obtain ⟨word, ended, exact⟩ := ends
      cases ran.symm.trans ended
      exact ⟨word, rfl, exact⟩
  · intro left right _ before divisible
    exact quotientFault before divisible

/- The left operand comes first, also when the right one divides by zero. -/
example : (operation .add (operation .multiply (number (2 ^ 62)) (number (-3)))
    (operation .divide (number (-7)) (number 0))).firstFault? = some (.overflow "*") := by
  decide +kernel

example : (operation .divide (number (-7)) (number 2)).value = -3 := by decide +kernel

end Formula

end Offside
