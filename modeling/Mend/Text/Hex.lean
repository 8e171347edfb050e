set_option autoImplicit false

/-! # Hexadecimal text

Numbers are written in lower case at a fixed width and read in either case. -/

namespace Mend

namespace Hex

/-- The digit for a value below sixteen. -/
def digit (n : Nat) : Char :=
  if n < 10 then Char.ofNat (48 + n) else Char.ofNat (87 + n)

/-- The value of a digit in either case. -/
def value? (c : Char) : Option Nat :=
  if '0' ≤ c && c ≤ '9' then some (c.toNat - 48)
  else if 'a' ≤ c && c ≤ 'f' then some (c.toNat - 87)
  else if 'A' ≤ c && c ≤ 'F' then some (c.toNat - 55)
  else none

/-- The lowest digits of a number, as many as `width`. -/
def write : Nat → Nat → List Char
  | 0, _ => []
  | width + 1, n => write width (n / 16) ++ [digit (n % 16)]

/-- Append digits to a number. -/
def readFrom (n : Nat) : List Char → Option Nat
  | [] => some n
  | c :: rest =>
    match value? c with
    | none => none
    | some d => readFrom (16 * n + d) rest

/-- The number written by the digits; no digits stand for zero. -/
def read? (cs : List Char) : Option Nat := readFrom 0 cs

@[simp] theorem length_write (width n : Nat) : (write width n).length = width := by
  induction width generalizing n with
  | zero => rfl
  | succ width ih => simp [write, ih]

end Hex

end Mend
