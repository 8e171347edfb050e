import Std.Data.ExtTreeMap
import Mend.Geometry.Pos

set_option autoImplicit false

/-! # Contents: what a cell holds, and the record of a cell that was destroyed -/

namespace Mend

/-- The name of a world. -/
abbrev WorldName := String

/-- Extra state of a cell, such as its orientation, by key. -/
abbrev Properties := Std.ExtTreeMap String String

/-- What a cell holds: a material and its extra state. -/
structure Content where
  material : String
  properties : Properties
deriving DecidableEq, Inhabited

/-- A material without extra state. -/
def Content.plain (material : String) : Content := ⟨material, ∅⟩

/-- How a cell came to hold what it holds: as terrain, or built by someone. -/
inductive Provenance where
  | natural
  | placed
deriving DecidableEq, Inhabited

/-- The word for a provenance in data files and reports. -/
def Provenance.name : Provenance → String
  | .natural => "natural"
  | .placed => "placed"

/-- A destroyed cell, as it was at the moment of destruction. -/
structure LostCell where
  pos : Pos
  content : Content
  provenance : Provenance
deriving DecidableEq, Inhabited

end Mend
