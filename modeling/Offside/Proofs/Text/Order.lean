import Mathlib.Data.String.Basic
import Mathlib.Order.Nat
import Offside.Proofs.Source.Lines

/-! The order of texts. Texts are compared by the bytes of their encoding or by the code points of their
characters, from the first difference on. Both come to the same: where two characters differ, their
encodings part, and the smaller code has the smaller byte there. -/
namespace Offside.Text

def bytes (text : String) : List Nat := text.toUTF8.data.toList.map UInt8.toNat

def codes (text : String) : List Nat := text.toList.map Char.toNat

/- The bytes of a character with this code. All bytes behind the first lie below every first byte of
more than one byte, and first bytes grow with the number of bytes. -/
inductive CharForm (code : Nat) : List Nat → Prop where
  | one (low : code < 0x80) : CharForm code [code]
  | two (low : 0x80 ≤ code) (high : code < 0x800) :
      CharForm code [0xC0 + code / 64, 0x80 + code % 64]
  | three (low : 0x800 ≤ code) (high : code < 0x10000) :
      CharForm code [0xE0 + code / 4096, 0x80 + code / 64 % 64, 0x80 + code % 64]
  | four (low : 0x10000 ≤ code) (high : code < 0x110000) : CharForm code
      [0xF0 + code / 262144, 0x80 + code / 4096 % 64, 0x80 + code / 64 % 64, 0x80 + code % 64]

def charBytes (c : Char) : List Nat := (String.utf8EncodeChar c).map UInt8.toNat

theorem charForm (c : Char) : CharForm c.toNat (charBytes c) := by
  have code : c.val.toNat = c.toNat := rfl
  have bound : c.toNat < 0x110000 := by
    have valid : c.toNat < 0xD800 ∨ 0xDFFF < c.toNat ∧ c.toNat < 0x110000 := c.valid
    omega
  simp only [charBytes, String.utf8EncodeChar, code]
  split
  · have first : c.toNat % 2 ^ 8 = c.toNat := by omega
    simp only [List.map_cons, List.map_nil, UInt8.toNat_ofNat', first]
    exact .one (by omega)
  · split
    · have first : (c.toNat / 64 % 0x20 + 0xC0) % 2 ^ 8 = 0xC0 + c.toNat / 64 := by omega
      have second : (c.toNat % 0x40 + 0x80) % 2 ^ 8 = 0x80 + c.toNat % 64 := by omega
      simp only [List.map_cons, List.map_nil, UInt8.toNat_ofNat', first, second]
      exact .two (by omega) (by omega)
    · have last : (c.toNat % 0x40 + 0x80) % 2 ^ 8 = 0x80 + c.toNat % 64 := by omega
      have before : (c.toNat / 64 % 0x40 + 0x80) % 2 ^ 8 = 0x80 + c.toNat / 64 % 64 := by omega
      split
      · have first : (c.toNat / 4096 % 0x10 + 0xE0) % 2 ^ 8 = 0xE0 + c.toNat / 4096 := by omega
        simp only [List.map_cons, List.map_nil, UInt8.toNat_ofNat', first, before, last]
        exact .three (by omega) (by omega)
      · have first : (c.toNat / 262144 % 0x08 + 0xF0) % 2 ^ 8 = 0xF0 + c.toNat / 262144 := by omega
        have second : (c.toNat / 4096 % 0x40 + 0x80) % 2 ^ 8 = 0x80 + c.toNat / 4096 % 64 := by omega
        simp only [List.map_cons, List.map_nil, UInt8.toNat_ofNat', first, second, before, last]
        exact .four (by omega) bound

theorem charFormLess {code other : Nat} {front back : List Nat} (form : CharForm code front)
    (against : CharForm other back) (less : code < other) (left right : List Nat) :
    front ++ left < back ++ right := by
  cases form <;> cases against <;>
    simp only [List.cons_append, List.nil_append, List.cons_lt_cons_iff] <;> omega

theorem bytesChars (text : String) : bytes text = text.toList.flatMap charBytes := by
  rw [bytes, String.toUTF8_eq_toByteArray, Source.encodeBytes, List.toList_toArray, Source.encode,
    List.map_flatMap]
  rfl

theorem charsLess {left right : List Char} (less : left < right) :
    left.flatMap charBytes < right.flatMap charBytes := by
  induction left generalizing right with
  | nil =>
    cases right with
    | nil => exact absurd less (lt_irrefl _)
    | cons d more =>
      cases front : charBytes d with
      | nil => exact absurd front (by simp [charBytes, String.utf8EncodeChar_ne_nil])
      | cons byte others =>
        rw [List.flatMap_cons, front]
        exact List.nil_lt_cons _ _
  | cons c rest ih =>
    cases right with
    | nil => exact absurd less (List.not_lt_nil _)
    | cons d more =>
      rw [List.flatMap_cons, List.flatMap_cons]
      rcases List.cons_lt_cons_iff.mp less with below | ⟨same, behind⟩
      · exact charFormLess (charForm c) (charForm d) (UInt32.lt_iff_toNat_lt.mp below) _ _
      · subst same
        exact List.Lex.append_left _ (ih behind) _

theorem bytesStrict : StrictMono bytes := by
  intro left right less
  rw [bytesChars, bytesChars]
  exact charsLess less

theorem codesStrict : StrictMono codes :=
  fun _ _ less => List.map_lt (fun _ _ below => UInt32.lt_iff_toNat_lt.mp below) less

end Offside.Text
