import Std.Data.ExtTreeMap
import Std.Data.ExtTreeSet
import Mend.Damage.Content
import Mend.Geometry.Box

set_option autoImplicit false

/-! # Atlases: worlds of cells held in memory

An atlas holds worlds by name. A world maps positions to what stands there; a position without
an entry holds air. Apart from that a world knows which positions were built on, and which
boxes of it are not loaded. -/

namespace Mend

/-- The material of every position that holds nothing. -/
def air : String := "air"

/-- The material that an incendiary blast leaves behind. -/
def fireMaterial : String := "fire"

/-- Why a world could not be read or changed. -/
inductive AtlasError where
  | worldNotFound (world : WorldName)
  | duplicateWorld (world : WorldName)
  | unloaded (world : WorldName) (pos : Pos)
  /-- A material without a name was to be written. -/
  | emptyMaterial (pos : Pos)
deriving DecidableEq, Inhabited

/-- The wording of an atlas error. -/
def AtlasError.message : AtlasError → String
  | .worldNotFound world => s!"world not found: {world}"
  | .duplicateWorld world => s!"duplicate world id: {world}"
  | .unloaded world pos => s!"cell {pos} in world {world} is not loaded"
  | .emptyMaterial pos => s!"empty material at {pos}"

/-- The cells of one world. -/
structure World where
  cells : Std.ExtTreeMap Pos Content
  /-- Where cells were built rather than generated. -/
  placed : Std.ExtTreeSet Pos
  /-- Boxes in which nothing can be restored. -/
  unloaded : List Box
deriving Inhabited

namespace World

/-- The world without cells. -/
def empty : World := ⟨∅, ∅, []⟩

/-- Whether the position lies in a loaded part of the world. -/
def isLoaded (w : World) (pos : Pos) : Bool := !w.unloaded.any fun box => box.contains pos

/-- How the cell at a position came to be. -/
def provenanceAt (w : World) (pos : Pos) : Provenance :=
  if w.placed.contains pos then .placed else .natural

/-- The material at a position. -/
def materialAt (w : World) (pos : Pos) : String :=
  match w.cells[pos]? with
  | some content => content.material
  | none => air

/-- The number of cells that hold something. -/
def solidCount (w : World) : Nat := w.cells.size

/-- The cells that satisfy a condition, in the order of their positions. -/
def cellsWhere (w : World) (test : Pos → Content → Bool) : List (Pos × Content) :=
  w.cells.toList.filter fun cell => test cell.1 cell.2

/-- Write content. Air empties the position and makes it natural. Returns what stood there. -/
def write (w : World) (pos : Pos) (content : Content) :
    Except AtlasError (Option Content) × World :=
  if content.material.isEmpty then (.error (.emptyMaterial pos), w)
  else if content.material = air then
    (.ok w.cells[pos]?, { w with cells := w.cells.erase pos, placed := w.placed.erase pos })
  else (.ok w.cells[pos]?, { w with cells := w.cells.insert pos content })

/-- Write a generated cell. The position counts as natural even where the write is refused. -/
def setNatural (w : World) (pos : Pos) (content : Content) :
    Except AtlasError (Option Content) × World :=
  { w with placed := w.placed.erase pos }.write pos content

/-- Write a built cell. The position counts as built even where the write is refused. -/
def place (w : World) (pos : Pos) (content : Content) :
    Except AtlasError (Option Content) × World :=
  { w with placed := w.placed.insert pos }.write pos content

/-- Write generated cells at each of the positions, up to the first refusal. -/
def fill (w : World) (content : Content) : List Pos → Except AtlasError Unit × World
  | [] => (.ok (), w)
  | pos :: rest =>
    match w.setNatural pos content with
    | (.ok _, w) => w.fill content rest
    | (.error e, w) => (.error e, w)

/-- Write built cells at each of the positions, up to the first refusal. -/
def build (w : World) (content : Content) : List Pos → Except AtlasError Unit × World
  | [] => (.ok (), w)
  | pos :: rest =>
    match w.place pos content with
    | (.ok _, w) => w.build content rest
    | (.error e, w) => (.error e, w)

/-- Empty every position of the box that holds the given material. -/
def clearBox (w : World) (box : Box) (material : String) : World :=
  { w with cells := w.cells.filter fun pos content =>
      !(box.contains pos && decide (content.material = material)) }

end World

/-- A signal that a cell was restored. -/
structure Signal where
  world : WorldName
  pos : Pos
  /-- The material that stood there afterwards. -/
  material : String
deriving DecidableEq, Inhabited

/-- Worlds by name, with the rules that hold in all of them. -/
structure Atlas where
  worlds : Std.ExtTreeMap WorldName World
  /-- The materials that count as nothing standing there. -/
  vacant : List String
  /-- The materials that cannot be restored. -/
  rejected : List String
  /-- The signals given so far. -/
  signals : Array Signal
  /-- Whether giving a signal fails. -/
  muted : Bool
deriving Inhabited

namespace Atlas

/-- An atlas without worlds, in which air and the given materials count as vacant. -/
def empty (vacant : List String) : Atlas := ⟨∅, air :: vacant, [], #[], false⟩

/-! ## Worlds -/

/-- The world of the given name. -/
def world? (a : Atlas) (name : WorldName) : Option World := a.worlds[name]?

/-- Whether there is a world of the given name. -/
def hasWorld (a : Atlas) (name : WorldName) : Bool := a.worlds.contains name

/-- Add a world without cells. -/
def addWorld (a : Atlas) (name : WorldName) : Except AtlasError Atlas :=
  if a.hasWorld name then .error (.duplicateWorld name)
  else .ok { a with worlds := a.worlds.insert name World.empty }

/-- Add a world without cells, unless there is one of that name. -/
def withWorld (a : Atlas) (name : WorldName) : Atlas :=
  if a.hasWorld name then a else { a with worlds := a.worlds.insert name World.empty }

/-- Change one world by an operation that may refuse and may leave something behind even so. -/
def modifyWorld {α : Type} (a : Atlas) (name : WorldName)
    (f : World → Except AtlasError α × World) : Except AtlasError α × Atlas :=
  match a.world? name with
  | none => (.error (.worldNotFound name), a)
  | some w =>
    let (r, w) := f w
    (r, { a with worlds := a.worlds.insert name w })

/-! ## Reading cells -/

/-- What stands on a cell, unless that is air. -/
def contentAt? (a : Atlas) (name : WorldName) (pos : Pos) : Option Content :=
  (a.world? name).bind fun w => w.cells[pos]?

/-- The material on a cell; air where there is no such world. -/
def materialAt (a : Atlas) (name : WorldName) (pos : Pos) : String :=
  match a.contentAt? name pos with
  | some content => content.material
  | none => air

/-- Whether a material counts as nothing standing there. -/
def isVacantMaterial (a : Atlas) (material : String) : Bool := a.vacant.contains material

/-- How the cell came to be; natural where there is no such world. -/
def provenanceAt (a : Atlas) (name : WorldName) (pos : Pos) : Provenance :=
  match a.world? name with
  | some w => w.provenanceAt pos
  | none => .natural

/-- The number of cells of a world that hold something. -/
def solidCount (a : Atlas) (name : WorldName) : Nat :=
  match a.world? name with
  | some w => w.solidCount
  | none => 0

/-- The number of cells of a world that satisfy a condition. -/
def countWhere (a : Atlas) (name : WorldName) (test : Pos → Content → Bool) : Nat :=
  match a.world? name with
  | some w => (w.cellsWhere test).length
  | none => 0

/-- The number of cells of a world that hold the given material. -/
def countMaterial (a : Atlas) (name : WorldName) (material : String) : Nat :=
  a.countWhere name fun _ content => content.material = material

/-- The number of cells in a box of a world that hold the given material. -/
def countInBox (a : Atlas) (name : WorldName) (box : Box) (material : String) : Nat :=
  a.countWhere name fun pos content => box.contains pos && decide (content.material = material)

/-- Whether a position lies in a loaded part of a world. -/
def isLoaded (a : Atlas) (name : WorldName) (pos : Pos) : Except AtlasError Bool :=
  match a.world? name with
  | none => .error (.worldNotFound name)
  | some w => .ok (w.isLoaded pos)

/-! ## Refusals -/

/-- Mark a box of a world as not loaded. -/
def unload (a : Atlas) (name : WorldName) (box : Box) : Except AtlasError Unit × Atlas :=
  a.modifyWorld name fun w => (.ok (), { w with unloaded := w.unloaded ++ [box] })

/-- Load every box of a world again. -/
def loadAll (a : Atlas) (name : WorldName) : Except AtlasError Unit × Atlas :=
  a.modifyWorld name fun w => (.ok (), { w with unloaded := [] })

/-- Refuse to restore a material from now on. -/
def reject (a : Atlas) (material : String) : Atlas :=
  if a.rejected.contains material then a else { a with rejected := material :: a.rejected }

/-- Let signals fail, or succeed again. -/
def mute (a : Atlas) (muted : Bool) : Atlas := { a with muted }

end Atlas

end Mend
