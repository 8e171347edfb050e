set_option autoImplicit false

/-! # Damage identifiers: 128-bit names for single occurrences of damage -/

namespace Mend

/-- The identifier of one occurrence of damage. -/
structure DamageId where
  bits : BitVec 128
deriving DecidableEq, Inhabited

namespace DamageId

/-- The identifier with the given value, taken modulo 2¹²⁸. -/
def ofNat (n : Nat) : DamageId := ⟨BitVec.ofNat 128 n⟩

/-- The identifier as a number below 2¹²⁸. -/
def toNat (id : DamageId) : Nat := id.bits.toNat

instance : Ord DamageId := ⟨compareOn toNat⟩

instance : Std.TransOrd DamageId := inferInstanceAs (Std.TransCmp (compareOn toNat))

instance : Std.LawfulEqOrd DamageId where
  eq_of_compare {a b} h := by
    have h' : a.toNat = b.toNat :=
      Std.LawfulEqCmp.eq_of_compare (show compare a.toNat b.toNat = .eq from h)
    cases a; cases b
    exact congrArg DamageId.mk (BitVec.eq_of_toNat_eq h')

end DamageId

end Mend
