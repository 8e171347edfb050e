import Mend.Scenario.Basic
import Mend.Yaml.Section

set_option autoImplicit false

/-! # Scenario documents

A scenario is the section `scenario` of a document. What it leaves out keeps its default. Its
values have types, so a number is no name and the text of a number is no number. -/

namespace Mend

namespace Scenario

open Yaml

/-! ## Single values -/

/-- A text. -/
def readText? : Datum → Option String
  | .text s => some s
  | _ => none

/-- A truth value. -/
def readBool? : Datum → Option Bool
  | .bool b => some b
  | _ => none

/-- A number up to a cap. -/
def readNumber? {m : Nat} : Datum → Option (Capped m)
  | .int (.ofNat n) => Capped.ofNat? n
  | _ => none

/-- A coordinate. -/
def readCoord? : Datum → Option Coord
  | .int n => Coord.ofInt? n
  | _ => none

/-- A position, as a list of its three coordinates. -/
def readPos? (d : Datum) : Option Pos :=
  match d.items? with
  | some [x, y, z] => do return ⟨← readCoord? x, ← readCoord? y, ← readCoord? z⟩
  | _ => none

/-- A list, read item by item. -/
def readList? {α : Type} (read : Datum → Option α) (d : Datum) : Option (List α) :=
  d.items?.bind fun items => items.mapM read

/-! ## Items -/

/-- A ball of terrain. -/
def readPatch? (d : Datum) : Option Patch := do
  let s ← d.section?
  let center ← s.read? "center" readPos?
  let radius ← s.read? "radius" readNumber?
  let material ← s.read? "material" readText?
  let placed ← s.readOr "placed" false readBool?
  return { center, radius, material, placed }

/-- A blast and its tick. -/
def readCue? (d : Datum) : Option Cue := do
  let s ← d.section?
  let tick ← s.readOr "at_tick" 0 readNumber?
  let origin ← s.read? "origin" readPos?
  let radius ← s.read? "radius" readNumber?
  let intensity ← s.read? "intensity" readNumber?
  let incendiary ← s.readOr "incendiary" false readBool?
  return ⟨tick, { origin, radius, intensity, incendiary }⟩

/-! ## Documents -/

/-- The scenario that a section describes. -/
def ofSection? (s : Section Datum) : Option Scenario := do
  let world ← s.readOr "world" default.world readText?
  let vacant ← s.readOr "absent_materials" default.vacant (readList? readText?)
  let clearFire ← s.readOr "clear_fire" default.clearFire readBool?
  let maxTicks ← s.readOr "max_ticks" default.maxTicks readNumber?
  let terrain ← s.readOr "terrain" default.terrain (readList? readPatch?)
  let cues ← s.readOr "explosions" default.cues (readList? readCue?)
  return { world, vacant, clearFire, maxTicks, terrain, cues }

/-- The scenario that a document describes, the default one where it describes none. -/
def ofDatum? : Datum → Option Scenario
  | .table entries =>
    match entries.lookup (.text "scenario") with
    | none => some default
    | some d => d.section?.bind ofSection?
  | _ => some default

/-- The scenario that a text describes. -/
def ofText? (text : String) : Option Scenario := (Datum.ofText? text).bind ofDatum?

end Scenario

end Mend
