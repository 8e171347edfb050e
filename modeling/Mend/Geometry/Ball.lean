import Mend.Capped
import Mend.Geometry.Pos

set_option autoImplicit false

/-! # Balls: the positions within a distance of a center

A ball is listed by displacement from its center: `dx` outermost, then `dy`, then `dz`, each
ascending. At the ends of the world several displacements land on one position, which is then
listed once for each. -/

namespace Mend

/-- The integers from `-r` to `r`, ascending. -/
def Ball.span (r : Nat) : List Int := (List.range (2 * r + 1)).map fun (i : Nat) => (i : Int) - r

/-- The displacements of Euclidean length at most `r`, in ascending order. -/
def Ball.displacements (r : Nat) : List (Int × Int × Int) :=
  (Ball.span r).flatMap fun dx =>
    (Ball.span r).flatMap fun dy =>
      ((Ball.span r).filter fun dz => dx * dx + dy * dy + dz * dz ≤ (r : Int) * r).map fun dz =>
        (dx, dy, dz)

/-- The positions within `radius` of `center`; a radius beyond 2³¹ − 1 counts as that. -/
def Pos.ball (center : Pos) (radius : Count) : List Pos :=
  (Ball.displacements (min radius.val 2147483647)).map fun d =>
    center.offset d.1 d.2.1 d.2.2

theorem Ball.mem_span {r : Nat} {i : Int} : i ∈ Ball.span r ↔ -(r : Int) ≤ i ∧ i ≤ r := by
  simp only [Ball.span, List.mem_map, List.mem_range]
  constructor
  · rintro ⟨k, hk, rfl⟩
    omega
  · intro h
    exact ⟨(i + r).toNat, by omega, by omega⟩

theorem Ball.mem_displacements {r : Nat} {dx dy dz : Int} :
    (dx, dy, dz) ∈ Ball.displacements r ↔
      (dx ∈ Ball.span r ∧ dy ∈ Ball.span r ∧ dz ∈ Ball.span r) ∧
        dx * dx + dy * dy + dz * dz ≤ (r : Int) * r := by
  simp only [Ball.displacements, List.mem_flatMap, List.mem_map, List.mem_filter,
    decide_eq_true_eq, Prod.mk.injEq]
  constructor
  · rintro ⟨x, hx, y, hy, z, ⟨hz, hle⟩, rfl, rfl, rfl⟩
    exact ⟨⟨hx, hy, hz⟩, hle⟩
  · rintro ⟨⟨hx, hy, hz⟩, hle⟩
    exact ⟨dx, hx, dy, hy, dz, ⟨hz, hle⟩, rfl, rfl, rfl⟩

end Mend
