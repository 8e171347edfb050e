import Mend.Capped
import Mend.Geometry.Pos

set_option autoImplicit false

/-! # Boxes: axis-aligned regions of a world -/

namespace Mend

/-- The positions between two corners, both included. A box whose corners are out of order is
    empty. -/
structure Box where
  low : Pos
  high : Pos
deriving DecidableEq, Inhabited

namespace Box

/-- The cube of all positions that differ from `center` by at most `radius` in every
    coordinate, cut off at the ends of the world. -/
def around (center : Pos) (radius : Count) : Box :=
  let r : Int := min (radius.val : Int) Coord.greatest
  ⟨center.offset (-r) (-r) (-r), center.offset r r r⟩

/-- Whether the position lies in the box. -/
def contains (b : Box) (p : Pos) : Bool :=
  b.low.x ≤ p.x && p.x ≤ b.high.x &&
  b.low.y ≤ p.y && p.y ≤ b.high.y &&
  b.low.z ≤ p.z && p.z ≤ b.high.z

theorem contains_iff {b : Box} {p : Pos} :
    b.contains p = true ↔
      (b.low.x ≤ p.x ∧ p.x ≤ b.high.x) ∧ (b.low.y ≤ p.y ∧ p.y ≤ b.high.y) ∧
        (b.low.z ≤ p.z ∧ p.z ≤ b.high.z) := by
  simp only [contains, Bool.and_eq_true, decide_eq_true_eq]
  constructor
  · rintro ⟨⟨⟨⟨⟨h1, h2⟩, h3⟩, h4⟩, h5⟩, h6⟩
    exact ⟨⟨h1, h2⟩, ⟨h3, h4⟩, ⟨h5, h6⟩⟩
  · rintro ⟨⟨h1, h2⟩, ⟨h3, h4⟩, ⟨h5, h6⟩⟩
    exact ⟨⟨⟨⟨⟨h1, h2⟩, h3⟩, h4⟩, h5⟩, h6⟩

end Box

end Mend
