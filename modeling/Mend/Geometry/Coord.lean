set_option autoImplicit false

/-! # Coordinates: the integers a world has room for

A coordinate is an integer from −2³¹ to 2³¹ − 1. Moving past either end stays at that end. -/

namespace Mend

/-- An integer between the two ends of the world. -/
structure Coord where
  val : Int
  least_le : -2147483648 ≤ val
  le_greatest : val ≤ 2147483647
deriving DecidableEq

namespace Coord

/-- The largest coordinate. -/
def greatest : Int := 2147483647

/-- The integer itself, or the nearer end of the world where it lies outside. -/
def clamp (n : Int) : Coord := ⟨max (-2147483648) (min n 2147483647), by omega, by omega⟩

/-- The integer itself, where it lies inside the world. -/
def ofInt? (n : Int) : Option Coord :=
  if h : -2147483648 ≤ n ∧ n ≤ 2147483647 then some ⟨n, h.1, h.2⟩ else none

instance : Inhabited Coord := ⟨clamp 0⟩
instance : LE Coord := ⟨fun a b => a.val ≤ b.val⟩
instance : LT Coord := ⟨fun a b => a.val < b.val⟩
instance (a b : Coord) : Decidable (a ≤ b) := inferInstanceAs (Decidable (a.val ≤ b.val))
instance (a b : Coord) : Decidable (a < b) := inferInstanceAs (Decidable (a.val < b.val))
instance : Ord Coord := ⟨compareOn Coord.val⟩
instance : ToString Coord := ⟨fun a => toString a.val⟩

@[ext] theorem ext {a b : Coord} (h : a.val = b.val) : a = b := by
  cases a; cases b; cases h; rfl

instance : Std.TransOrd Coord := inferInstanceAs (Std.TransCmp (compareOn Coord.val))

instance : Std.LawfulEqOrd Coord where
  eq_of_compare {a b} h :=
    ext (Std.LawfulEqCmp.eq_of_compare (show compare a.val b.val = .eq from h))

@[simp] theorem val_clamp (n : Int) : (clamp n).val = max (-2147483648) (min n 2147483647) :=
  rfl

@[simp] theorem clamp_val (a : Coord) : clamp a.val = a := by
  have := a.least_le
  have := a.le_greatest
  exact ext (by simp only [val_clamp]; omega)

theorem le_def {a b : Coord} : a ≤ b ↔ a.val ≤ b.val := Iff.rfl

theorem lt_def {a b : Coord} : a < b ↔ a.val < b.val := Iff.rfl

theorem not_lt {a b : Coord} : ¬ a < b ↔ b ≤ a := Int.not_lt

theorem le_refl (a : Coord) : a ≤ a := Int.le_refl a.val

theorem le_trans {a b c : Coord} (h : a ≤ b) (h' : b ≤ c) : a ≤ c := Int.le_trans h h'

theorem le_antisymm {a b : Coord} (h : a ≤ b) (h' : b ≤ a) : a = b :=
  ext (Int.le_antisymm h h')

theorem le_of_lt {a b : Coord} (h : a < b) : a ≤ b := Int.le_of_lt h

theorem ne_of_lt {a b : Coord} (h : a < b) : a ≠ b :=
  fun heq => Int.ne_of_lt h (congrArg val heq)

theorem lt_trans {a b c : Coord} (h : a < b) (h' : b < c) : a < c := Int.lt_trans h h'

theorem lt_of_lt_of_le {a b c : Coord} (h : a < b) (h' : b ≤ c) : a < c :=
  Int.lt_of_lt_of_le h h'

theorem lt_of_le_of_lt {a b c : Coord} (h : a ≤ b) (h' : b < c) : a < c :=
  Int.lt_of_le_of_lt h h'

theorem lt_of_le_of_ne {a b : Coord} (h : a ≤ b) (hne : a ≠ b) : a < b :=
  Int.lt_iff_le_and_ne.2 ⟨h, fun heq => hne (ext heq)⟩

theorem ofInt?_eq_some_iff {n : Int} {a : Coord} : ofInt? n = some a ↔ a.val = n := by
  unfold ofInt?
  split
  · next h =>
    constructor
    · intro e; cases e; rfl
    · intro e; exact congrArg some (ext e.symm)
  · next h =>
    constructor
    · intro e; cases e
    · intro e; exact absurd ⟨e ▸ a.least_le, e ▸ a.le_greatest⟩ h

end Coord

end Mend
