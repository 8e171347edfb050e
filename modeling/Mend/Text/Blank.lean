set_option autoImplicit false

/-! # White space, as Unicode has it -/

namespace Mend

/-- The characters with the property White_Space, as ranges of code points. -/
def Blank.ranges : List (Nat × Nat) :=
  [(0x9, 0xD), (0x20, 0x20), (0x85, 0x85), (0xA0, 0xA0), (0x1680, 0x1680), (0x2000, 0x200A),
    (0x2028, 0x2029), (0x202F, 0x202F), (0x205F, 0x205F), (0x3000, 0x3000)]

/-- Whether a character is white space. -/
def isBlank (c : Char) : Bool :=
  Blank.ranges.any fun range => range.1 ≤ c.toNat && c.toNat ≤ range.2

/-- The text without white space at its start. -/
def trimStart (cs : List Char) : List Char := cs.dropWhile isBlank

/-- The text without white space at its ends. -/
def trim (cs : List Char) : List Char := (trimStart (trimStart cs).reverse).reverse

example : Blank.ranges.length = 10 := rfl

example : (Blank.ranges.map fun range => range.2 - range.1 + 1).sum = 25 := rfl

end Mend
