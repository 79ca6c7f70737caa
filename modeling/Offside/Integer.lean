/-! The integers of the language: signed numbers of 64 bits. Arithmetic is exact, so a result outside
the range is no integer at all. -/

namespace Offside.Integer

def fits : Int → Bool
  | .ofNat magnitude => decide (magnitude < 0x8000000000000000)
  | .negSucc predecessor => decide (predecessor < 0x8000000000000000)

def ofInt? (value : Int) : Option Int64 :=
  if fits value then some (Int64.ofInt value) else none

def ofDigits? (digits : List Char) : Option Int64 := ofInt? (Nat.ofDigitChars 10 digits 0)

def text (value : Int64) : String :=
  match value.toInt with
  | .ofNat magnitude => String.ofList (Nat.toDigits 10 magnitude)
  | .negSucc predecessor => String.ofList ('-' :: Nat.toDigits 10 (predecessor + 1))

theorem fitsRange {value : Int} :
    fits value = true ↔ -0x8000000000000000 ≤ value ∧ value < 0x8000000000000000 := by
  cases value with
  | ofNat magnitude => simp only [fits, decide_eq_true_eq, Int.ofNat_eq_natCast]; omega
  | negSucc predecessor => simp only [fits, decide_eq_true_eq]; omega

theorem ofIntExact {value : Int} {word : Int64} (exact : ofInt? value = some word) :
    word.toInt = value := by
  unfold ofInt? at exact
  split at exact
  · rename_i inside
    have range := fitsRange.mp inside
    cases exact
    exact Int64.toInt_ofInt_of_le range.1 range.2
  · contradiction

theorem ofIntToInt (word : Int64) : ofInt? word.toInt = some word := by
  have inside := fitsRange.mpr ⟨Int64.le_toInt word, Int64.toInt_lt word⟩
  rw [ofInt?, if_pos inside, Int64.ofInt_toInt]

theorem ofIntNone {value : Int} :
    ofInt? value = none ↔ value < -0x8000000000000000 ∨ 0x8000000000000000 ≤ value := by
  unfold ofInt?
  split
  · rename_i inside
    have range := fitsRange.mp inside
    constructor
    · intro absent; contradiction
    · omega
  · rename_i outside
    have range := mt fitsRange.mpr outside
    exact ⟨fun _ => by omega, fun _ => rfl⟩

end Offside.Integer
