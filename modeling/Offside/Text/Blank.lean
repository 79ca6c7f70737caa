/-! Blank text: the characters that count as white space, and the texts made of nothing else. The
table is the Unicode property `White_Space`, which is larger than `Char.isWhitespace`. -/

namespace Offside.Text

def blankRanges : List (Nat × Nat) :=
  [(0x09, 0x0D), (0x20, 0x20), (0x85, 0x85), (0xA0, 0xA0), (0x1680, 0x1680), (0x2000, 0x200A),
   (0x2028, 0x2029), (0x202F, 0x202F), (0x205F, 0x205F), (0x3000, 0x3000)]

def isBlankChar (c : Char) : Bool :=
  blankRanges.any fun range => decide (range.1 ≤ c.toNat) && decide (c.toNat ≤ range.2)

def isBlank (text : List Char) : Bool := text.all isBlankChar

@[simp] theorem blankNil : isBlank [] = true := rfl

@[simp] theorem blankCons (c : Char) (text : List Char) :
    isBlank (c :: text) = (isBlankChar c && isBlank text) := rfl

theorem blankAppend (left right : List Char) :
    isBlank (left ++ right) = (isBlank left && isBlank right) := by
  simp [isBlank]

end Offside.Text
