set_option autoImplicit false

/-! # Capped numbers: naturals with a largest value

`Capped m` holds the natural numbers up to `m`. Arithmetic on it saturates: a sum or product
that would exceed `m` is `m`, and a difference that would be negative is `0`. Every operation
is described by what it does to `val`, so that a statement about capped numbers becomes one
about naturals and `min`. -/

namespace Mend

/-- A natural number that is at most `max`. -/
structure Capped (max : Nat) where
  val : Nat
  le_max : val ≤ max
deriving DecidableEq

/-- Counts, heights, radii and intensities: up to 2³² − 1. -/
abbrev Count := Capped 4294967295

/-- Tick numbers, delays and deadlines: up to 2⁶⁴ − 1. -/
abbrev Tick := Capped 18446744073709551615

/-- Regeneration speeds: 0 (off) to 10 (fastest). -/
abbrev Speed := Capped 10

namespace Capped

variable {m : Nat}

/-- The number itself, or the cap where the number exceeds it. -/
def clamp (n : Nat) : Capped m := ⟨min n m, Nat.min_le_right n m⟩

/-- The number itself, where it does not exceed the cap. -/
def ofNat? (n : Nat) : Option (Capped m) :=
  if h : n ≤ m then some ⟨n, h⟩ else none

/-- The same number under another cap, cut off where that cap is smaller. -/
def recap {k : Nat} (a : Capped m) : Capped k := clamp a.val

instance (n : Nat) : OfNat (Capped m) n := ⟨clamp n⟩
instance : Inhabited (Capped m) := ⟨0⟩
instance : Add (Capped m) := ⟨fun a b => clamp (a.val + b.val)⟩
instance : Mul (Capped m) := ⟨fun a b => clamp (a.val * b.val)⟩
instance : Sub (Capped m) := ⟨fun a b => clamp (a.val - b.val)⟩
instance : LE (Capped m) := ⟨fun a b => a.val ≤ b.val⟩
instance : LT (Capped m) := ⟨fun a b => a.val < b.val⟩
instance (a b : Capped m) : Decidable (a ≤ b) := inferInstanceAs (Decidable (a.val ≤ b.val))
instance (a b : Capped m) : Decidable (a < b) := inferInstanceAs (Decidable (a.val < b.val))
instance : ToString (Capped m) := ⟨fun a => toString a.val⟩

/-! ## What each operation does to the value -/

@[ext] theorem ext {a b : Capped m} (h : a.val = b.val) : a = b := by
  cases a; cases b; cases h; rfl

@[simp] theorem val_clamp (n : Nat) : (clamp n : Capped m).val = min n m := rfl

@[simp] theorem val_recap {k : Nat} (a : Capped m) :
    (a.recap : Capped k).val = min a.val k := rfl

@[simp] theorem val_ofNat (n : Nat) : (no_index (OfNat.ofNat n) : Capped m).val = min n m := rfl

@[simp] theorem val_add (a b : Capped m) : (a + b).val = min (a.val + b.val) m := rfl

@[simp] theorem val_mul (a b : Capped m) : (a * b).val = min (a.val * b.val) m := rfl

@[simp] theorem val_sub (a b : Capped m) : (a - b).val = a.val - b.val := by
  have := a.le_max
  exact Nat.min_eq_left (by omega)

theorem le_def {a b : Capped m} : a ≤ b ↔ a.val ≤ b.val := Iff.rfl

theorem lt_def {a b : Capped m} : a < b ↔ a.val < b.val := Iff.rfl

theorem not_le {a b : Capped m} : ¬ a ≤ b ↔ b < a := Nat.not_le

theorem not_lt {a b : Capped m} : ¬ a < b ↔ b ≤ a := Nat.not_lt

theorem le_refl (a : Capped m) : a ≤ a := Nat.le_refl a.val

theorem le_trans {a b c : Capped m} (h : a ≤ b) (h' : b ≤ c) : a ≤ c := Nat.le_trans h h'

theorem le_antisymm {a b : Capped m} (h : a ≤ b) (h' : b ≤ a) : a = b :=
  ext (Nat.le_antisymm h h')

theorem lt_of_lt_of_le {a b c : Capped m} (h : a < b) (h' : b ≤ c) : a < c :=
  Nat.lt_of_lt_of_le h h'

theorem le_of_lt {a b : Capped m} (h : a < b) : a ≤ b := Nat.le_of_lt h

instance : Std.IsLinearOrder (Capped m) where
  le_refl := le_refl
  le_trans _ _ _ := le_trans
  le_antisymm _ _ := le_antisymm
  le_total a b := Nat.le_total a.val b.val

@[simp] theorem clamp_val (a : Capped m) : clamp a.val = a :=
  ext (Nat.min_eq_left a.le_max)

/-- A sum of numbers that may be cut off is the sum that may be cut off. -/
theorem clamp_add_clamp (a b : Nat) : (clamp a : Capped m) + clamp b = clamp (a + b) :=
  ext (by simp only [val_add, val_clamp]; omega)

theorem ofNat?_eq_some_iff {n : Nat} {a : Capped m} : ofNat? n = some a ↔ a.val = n := by
  unfold ofNat?
  split
  · next h =>
    constructor
    · intro e; cases e; rfl
    · intro e; exact congrArg some (ext e.symm)
  · next h =>
    constructor
    · intro e; cases e
    · intro e; exact absurd (e ▸ a.le_max) h

end Capped

end Mend
