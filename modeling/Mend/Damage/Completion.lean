import Mend.Damage.Event
import Mend.Damage.Tally
import Mend.Geometry.Box

set_option autoImplicit false

/-! # Completions: the report on damage whose cells have all come out -/

namespace Mend

/-- What is reported once the last cell of some damage has come out. -/
structure Completion where
  damage : DamageId
  world : WorldName
  origin : Pos
  intensity : Count
  /-- The hazard radius: how far around the origin the aftermath reaches. -/
  radius : Count
  /-- The cube of the hazard radius around the origin. -/
  hazard : Box
  tally : Tally 4294967295
  /-- The tick on which the damage was taken in. -/
  submitted : Tick
  /-- The tick on which the last cell came out. -/
  completed : Tick
deriving DecidableEq, Inhabited

/-- The number of cells the damage was taken in with. -/
def Completion.cells (c : Completion) : Count := c.tally.total

end Mend
