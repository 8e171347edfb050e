set_option autoImplicit false

/-! # Decimal text of natural numbers -/

namespace Mend

namespace Decimal

/-- Whether a character is one of the ten digits. -/
def isDigit (c : Char) : Bool := '0' ≤ c && c ≤ '9'

/-- The value of a digit. -/
def value (c : Char) : Nat := c.toNat - 48

/-- The digit for a value below ten. -/
def digit (n : Nat) : Char := Char.ofNat (48 + n)

/-- The number that the digits continue. -/
def readFrom (n : Nat) (cs : List Char) : Nat := cs.foldl (fun n c => 10 * n + value c) n

/-- The number written by the digits. -/
def read (cs : List Char) : Nat := readFrom 0 cs

/-- The lowest digits of a number, as many as `width`. -/
def fixed : Nat → Nat → List Char
  | 0, _ => []
  | width + 1, n => fixed width (n / 10) ++ [digit (n % 10)]

/-- The digits of a number without leading zeros, if `fuel` is at least as large. -/
def writeAux : Nat → Nat → List Char
  | 0, n => [digit n]
  | fuel + 1, n => if n < 10 then [digit n] else writeAux fuel (n / 10) ++ [digit (n % 10)]

/-- The digits of a number without leading zeros. -/
def write (n : Nat) : List Char := writeAux n n

/-- The digits of an integer, after a minus sign if it is negative. -/
def writeInt (n : Int) : List Char :=
  if n < 0 then '-' :: write n.natAbs else write n.natAbs

/-! ## Reading what was written -/

theorem isDigit_digit : ∀ n, n < 10 → isDigit (digit n) = true := by decide

theorem value_digit : ∀ n, n < 10 → value (digit n) = n := by decide

theorem read_append (cs : List Char) (c : Char) : read (cs ++ [c]) = 10 * read cs + value c := by
  simp [read, readFrom]

theorem read_writeAux (fuel n : Nat) (h : n ≤ fuel) : read (writeAux fuel n) = n := by
  induction fuel generalizing n with
  | zero =>
    have : n = 0 := by omega
    subst this
    rfl
  | succ fuel ih =>
    unfold writeAux
    split
    · next hn => simp [read, readFrom, value_digit n hn]
    · next hn => rw [read_append, ih (n / 10) (by omega), value_digit _ (by omega)]; omega

theorem read_write (n : Nat) : read (write n) = n := read_writeAux n n (Nat.le_refl n)

end Decimal

end Mend
