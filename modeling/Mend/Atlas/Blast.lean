import Mend.Atlas.Basic
import Mend.Damage.Event
import Mend.Geometry.Ball

set_option autoImplicit false

/-! # Blasts: carving a ball out of a world

A blast takes every cell of a ball that does not count as vacant and reports what it took. An
incendiary blast then sets fire to each position it emptied that rests on solid ground; whether
it does is decided before the first fire is set. -/

namespace Mend

/-- One blast. -/
structure Blast where
  origin : Pos
  radius : Count
  intensity : Count
  incendiary : Bool
deriving DecidableEq, Inhabited

namespace World

/-- Take the cell at a position, unless what stands there counts as vacant. -/
def carveCell (vacant : List String) (w : World) (pos : Pos) : Option LostCell × World :=
  match w.cells[pos]? with
  | none => (none, w)
  | some content =>
    if vacant.contains content.material then (none, w)
    else (some ⟨pos, content, w.provenanceAt pos⟩, { w with cells := w.cells.erase pos })

/-- Take the cells at the given positions, one after the other. -/
def carve (vacant : List String) (w : World) (positions : List Pos) : List LostCell × World :=
  let r := positions.foldl (fun (acc : List LostCell × World) pos =>
    match carveCell vacant acc.2 pos with
    | (some cell, w) => (cell :: acc.1, w)
    | (none, w) => (acc.1, w)) ([], w)
  (r.1.reverse, r.2)

/-- Whether solid ground lies directly below a position. -/
def isGrounded (vacant : List String) (w : World) (pos : Pos) : Bool :=
  match w.cells[pos.below]? with
  | none => false
  | some content => !vacant.contains content.material

/-- Set fire to the given positions. -/
def ignite (w : World) (positions : List Pos) : World :=
  { w with cells := positions.foldl (fun cells pos =>
      cells.insert pos (Content.plain fireMaterial)) w.cells }

/-- What a blast takes from a world, and the world it leaves. -/
def explode (vacant : List String) (w : World) (blast : Blast) : List LostCell × World :=
  let (lost, carved) := w.carve vacant (blast.origin.ball blast.radius)
  if blast.incendiary then
    (lost, carved.ignite ((lost.map LostCell.pos).filter (carved.isGrounded vacant)))
  else (lost, carved)

end World

/-- Set off a blast in a world. Returns the damage it did. -/
def Atlas.explode (a : Atlas) (name : WorldName) (blast : Blast) :
    Except AtlasError Damage × Atlas :=
  a.modifyWorld name fun w =>
    let (cells, w) := w.explode a.vacant blast
    (.ok { world := name, origin := blast.origin, intensity := blast.intensity, cells }, w)

end Mend
