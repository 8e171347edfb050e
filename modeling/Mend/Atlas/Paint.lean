import Mend.Atlas.Basic
import Mend.Geometry.Ball

set_option autoImplicit false

/-! # Painting: writing cells and balls of cells -/

namespace Mend

namespace Atlas

/-- Write a generated cell. Returns what stood there. -/
def setNatural (a : Atlas) (name : WorldName) (pos : Pos) (content : Content) :
    Except AtlasError (Option Content) × Atlas :=
  a.modifyWorld name fun w => w.setNatural pos content

/-- Write a built cell. Returns what stood there. -/
def place (a : Atlas) (name : WorldName) (pos : Pos) (content : Content) :
    Except AtlasError (Option Content) × Atlas :=
  a.modifyWorld name fun w => w.place pos content

/-- Fill a ball with generated cells of a material. Returns the number of writes. -/
def fillBall (a : Atlas) (name : WorldName) (center : Pos) (radius : Count)
    (material : String) : Except AtlasError Nat × Atlas :=
  let cells := center.ball radius
  match a.modifyWorld name fun w => w.fill (Content.plain material) cells with
  | (.ok (), a) => (.ok cells.length, a)
  | (.error e, a) => (.error e, a)

/-- Fill a ball with built cells of a material. -/
def buildBall (a : Atlas) (name : WorldName) (center : Pos) (radius : Count)
    (material : String) : Except AtlasError Unit × Atlas :=
  a.modifyWorld name fun w => w.build (Content.plain material) (center.ball radius)

/-- Empty every position of a box that holds a material. Returns how many these were. -/
def clearBox (a : Atlas) (name : WorldName) (box : Box) (material : String) :
    Except AtlasError Nat × Atlas :=
  a.modifyWorld name fun w =>
    let cleared := w.clearBox box material
    (.ok (w.solidCount - cleared.solidCount), cleared)

end Atlas

end Mend
