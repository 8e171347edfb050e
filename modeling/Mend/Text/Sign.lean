set_option autoImplicit false

/-! # Letters, digits and signs

Beyond ASCII the signs of the common blocks are told from letters: Latin punctuation, general
punctuation, currency, arrows, mathematics, boxes, dingbats, ideographic punctuation, wide forms,
private characters and pictures. The signs of single scripts count as letters. -/

namespace Mend

/-- The signs beyond ASCII, as ranges of code points. -/
def Sign.ranges : List (Nat × Nat) :=
  [(0x80, 0xA9), (0xAB, 0xB1), (0xB4, 0xB4), (0xB6, 0xB8), (0xBB, 0xBB), (0xBF, 0xBF),
    (0xD7, 0xD7), (0xF7, 0xF7), (0x2000, 0x206F), (0x207A, 0x207E), (0x208A, 0x208E),
    (0x20A0, 0x2101), (0x2190, 0x245F), (0x249C, 0x24B5), (0x2500, 0x2775), (0x2794, 0x2BFF),
    (0x2E00, 0x2E2E), (0x2E30, 0x3004), (0x3008, 0x3020), (0x3030, 0x3030), (0xE000, 0xF8FF),
    (0xFE10, 0xFE6F), (0xFEFF, 0xFEFF), (0xFF01, 0xFF0F), (0xFF1A, 0xFF20), (0xFF3B, 0xFF40),
    (0xFF5B, 0xFF65), (0xFFE0, 0xFFFF), (0x1F000, 0x1F0FF), (0x1F18A, 0x1FAFF)]

/-- Whether a character counts as a letter or a digit. -/
def isWordChar (c : Char) : Bool :=
  c.isAlphanum ||
    (127 < c.toNat && !Sign.ranges.any fun range => range.1 ≤ c.toNat && c.toNat ≤ range.2)

end Mend
