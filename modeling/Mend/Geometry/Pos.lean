import Mend.Geometry.Coord

set_option autoImplicit false

/-! # Positions: where a cell stands

A position has three coordinates, of which `y` is the elevation. Positions are ordered by `x`,
then `y`, then `z`; the order is total and lawful, so positions can be the keys of a map. -/

namespace Mend

/-- The place of one cell; `y` is its elevation. -/
structure Pos where
  x : Coord
  y : Coord
  z : Coord
deriving DecidableEq, Inhabited

namespace Pos

instance : Ord Pos :=
  ⟨compareLex (compareOn Pos.x) (compareLex (compareOn Pos.y) (compareOn Pos.z))⟩

instance : Std.TransOrd Pos :=
  inferInstanceAs (Std.TransCmp
    (compareLex (compareOn Pos.x) (compareLex (compareOn Pos.y) (compareOn Pos.z))))

instance : Std.LawfulEqOrd Pos where
  eq_of_compare {a b} h := by
    have h' : compareLex (compareOn Pos.x)
        (compareLex (compareOn Pos.y) (compareOn Pos.z)) a b = .eq := h
    simp only [compareLex_eq_eq, compareOn] at h'
    obtain ⟨hx, hy, hz⟩ := h'
    cases a; cases b
    cases Std.LawfulEqCmp.eq_of_compare hx
    cases Std.LawfulEqCmp.eq_of_compare hy
    cases Std.LawfulEqCmp.eq_of_compare hz
    rfl

/-- The position nearest to the three given integers. -/
def clamp (x y z : Int) : Pos := ⟨Coord.clamp x, Coord.clamp y, Coord.clamp z⟩

/-- The position moved by the given amounts, each coordinate stopping at the ends of the
    world. -/
def offset (p : Pos) (dx dy dz : Int) : Pos :=
  clamp (p.x.val + dx) (p.y.val + dy) (p.z.val + dz)

/-- The position directly below; at the bottom of the world that is the position itself. -/
def below (p : Pos) : Pos := p.offset 0 (-1) 0

instance : ToString Pos := ⟨fun p => s!"({p.x}, {p.y}, {p.z})"⟩

end Pos

end Mend
