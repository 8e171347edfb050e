import Mathlib.Algebra.Ring.Nat
import Mend.Text.Decimal
import Mend.Text.Hex

set_option autoImplicit false

/-! # Digits that are written and read

A number is written in decimal digits, either without leading zeros or at a fixed width, or in
hexadecimal digits at a fixed width. What was written consists of digits (`AllDigits`) and reads as
the number again, at a fixed width provided that the number fits (`Decimal.read_fixed`,
`Hex.read?_write`). -/

namespace Mend

namespace Decimal

/-! ## Runs of digits -/

/-- The text consists of digits. -/
def AllDigits (cs : List Char) : Prop := ∀ c ∈ cs, isDigit c = true

/-- The text does not begin with a digit. -/
def StopsDigits (cs : List Char) : Prop := ∀ c ∈ cs.head?, isDigit c = false

variable {ds rest : List Char} {n : Nat}

theorem AllDigits.append {es : List Char} (hd : AllDigits ds) (he : AllDigits es) :
    AllDigits (ds ++ es) :=
  List.forall_mem_append.2 ⟨hd, he⟩

theorem allDigits_digit (h : n < 10) : AllDigits [digit n] :=
  fun _ hc => List.mem_singleton.1 hc ▸ isDigit_digit n h

theorem StopsDigits.take (h : StopsDigits rest) (k : Nat) : StopsDigits (rest.take k) := by
  cases k with
  | zero => exact nofun
  | succ k =>
      cases rest with
      | nil => exact nofun
      | cons c rest => exact h

/-- Digits are taken from the front of a text up to what does not go on with a digit. -/
theorem takeWhile_append (hd : AllDigits ds) (hr : StopsDigits rest) :
    (ds ++ rest).takeWhile isDigit = ds := by
  rw [List.takeWhile_append_of_pos hd]
  cases rest with
  | nil => exact List.append_nil ds
  | cons c rest => rw [List.takeWhile_cons_of_neg (by simp [hr c rfl]), List.append_nil]

theorem dropWhile_append (hd : AllDigits ds) (hr : StopsDigits rest) :
    (ds ++ rest).dropWhile isDigit = rest := by
  rw [List.dropWhile_append_of_pos hd]
  cases rest with
  | nil => rfl
  | cons c rest => rw [List.dropWhile_cons_of_neg (by simp [hr c rfl])]

/-- Leading zeros do not count. -/
theorem read_replicate_append (k : Nat) (ds : List Char) :
    read (List.replicate k '0' ++ ds) = read ds := by
  induction k with
  | zero => rfl
  | succ k ih => exact ih

/-! ## Numbers without leading zeros -/

theorem allDigits_writeAux (fuel n : Nat) (h : n ≤ fuel) : AllDigits (writeAux fuel n) := by
  induction fuel generalizing n with
  | zero => exact allDigits_digit (by omega)
  | succ fuel ih =>
      unfold writeAux
      split
      · next hn => exact allDigits_digit hn
      · exact (ih (n / 10) (by omega)).append (allDigits_digit (by omega))

theorem allDigits_write (n : Nat) : AllDigits (write n) := allDigits_writeAux n n (Nat.le_refl n)

theorem writeAux_ne_nil (fuel n : Nat) : writeAux fuel n ≠ [] := by
  cases fuel with
  | zero => exact List.cons_ne_nil _ _
  | succ fuel =>
      unfold writeAux
      split <;> simp

theorem write_ne_nil (n : Nat) : write n ≠ [] := writeAux_ne_nil n n

theorem digit_ne_zero : ∀ n, n < 10 → 0 < n → digit n ≠ '0' := by decide

/-- A positive number does not begin with a zero. -/
theorem head?_writeAux (fuel n : Nat) (h : n ≤ fuel) (hpos : 0 < n) :
    (writeAux fuel n).head? ≠ some '0' := by
  induction fuel generalizing n with
  | zero => omega
  | succ fuel ih =>
      unfold writeAux
      split
      · next hn => simpa using digit_ne_zero n hn hpos
      · have hrest := ih (n / 10) (by omega) (by omega)
        obtain ⟨c, cs, hc⟩ := List.exists_cons_of_ne_nil (writeAux_ne_nil fuel (n / 10))
        rw [hc] at hrest ⊢
        exact hrest

/-- A number of more than one digit does not begin with a zero. -/
theorem head?_write (n : Nat) (h : (write n).head? = some '0') : (write n).length = 1 := by
  cases n with
  | zero => rfl
  | succ n => exact absurd h (head?_writeAux (n + 1) (n + 1) (Nat.le_refl _) (Nat.succ_pos n))

/-! ## Numbers at a fixed width -/

@[simp] theorem length_fixed (width n : Nat) : (fixed width n).length = width := by
  induction width generalizing n with
  | zero => rfl
  | succ width ih => simp [fixed, ih]

theorem fixed_ne_nil (width n : Nat) : fixed (width + 1) n ≠ [] :=
  List.ne_nil_of_length_eq_add_one (length_fixed _ _)

theorem allDigits_fixed (width n : Nat) : AllDigits (fixed width n) := by
  induction width generalizing n with
  | zero => exact fun _ hc => absurd hc List.not_mem_nil
  | succ width ih => exact (ih (n / 10)).append (allDigits_digit (by omega))

theorem read_fixed (width n : Nat) (h : n < 10 ^ width) : read (fixed width n) = n := by
  induction width generalizing n with
  | zero =>
      have hzero : n = 0 := by omega
      rw [hzero]
      rfl
  | succ width ih =>
      have hdigit := value_digit (n % 10) (by omega)
      have hrest := ih (n / 10) (by rw [Nat.pow_succ] at h; omega)
      rw [fixed, read_append, hrest, hdigit]
      omega

end Decimal

/-! ## Hexadecimal numbers -/

namespace Hex

theorem value?_digit : ∀ n, n < 16 → value? (digit n) = some n := by decide

theorem readFrom_concat (n : Nat) (cs : List Char) (c : Char) :
    readFrom n (cs ++ [c]) = (readFrom n cs).bind fun m => (value? c).map (16 * m + ·) := by
  induction cs generalizing n with
  | nil => cases hc : value? c <;> simp [readFrom, hc]
  | cons d cs ih => cases hd : value? d <;> simp [readFrom, hd, ih]

theorem read?_write (width n : Nat) (h : n < 16 ^ width) : read? (write width n) = some n := by
  induction width generalizing n with
  | zero =>
      have hzero : n = 0 := by omega
      rw [hzero]
      rfl
  | succ width ih =>
      have hrest := ih (n / 16) (by rw [Nat.pow_succ] at h; omega)
      have hn : 16 * (n / 16) + n % 16 = n := by omega
      unfold read? at hrest ⊢
      rw [write, readFrom_concat, hrest, value?_digit _ (by omega)]
      exact congrArg some hn

end Hex

end Mend
