import Mend.Atlas.Blast
import Mend.Atlas.Paint

set_option autoImplicit false

/-! # Scenarios: terrain to build and blasts to set off -/

namespace Mend

/-- A ball of one material. -/
structure Patch where
  center : Pos
  radius : Count
  material : String
  /-- Whether the cells count as built. -/
  placed : Bool
deriving DecidableEq, Inhabited

/-- A blast and the tick on which it goes off; tick 0 comes before the first tick. -/
structure Cue where
  tick : Tick
  blast : Blast
deriving DecidableEq, Inhabited

/-- A scripted world. -/
structure Scenario where
  world : WorldName
  /-- The materials that count as vacant, beside air. -/
  vacant : List String
  /-- Whether fire is cleared from the hazard box of each completion. -/
  clearFire : Bool
  /-- The largest number of ticks to run, 0 for any number. -/
  maxTicks : Tick
  terrain : List Patch
  cues : List Cue
deriving DecidableEq, Inhabited

namespace Scenario

/-- The scenario that plays where no other is given: two blasts into a ball of stone. -/
def default : Scenario where
  world := "overworld"
  vacant := [air]
  clearFire := true
  maxTicks := 20000
  terrain := [⟨Pos.clamp 0 0 0, 8, "stone", false⟩]
  cues :=
    [⟨0, ⟨Pos.clamp 0 4 0, 3, 4, false⟩⟩,
     ⟨20, ⟨Pos.clamp 3 2 0, 3, 6, true⟩⟩]

/-- Paint one patch of terrain. -/
def paint (world : WorldName) (a : Atlas) (p : Patch) : Except AtlasError Atlas :=
  if p.placed then
    match a.buildBall world p.center p.radius p.material with
    | (.ok (), a) => .ok a
    | (.error e, _) => .error e
  else
    match a.fillBall world p.center p.radius p.material with
    | (.ok _, a) => .ok a
    | (.error e, _) => .error e

/-- Paint patches in order, each over those before it. -/
def paintAll (world : WorldName) (a : Atlas) : List Patch → Except AtlasError Atlas
  | [] => .ok a
  | p :: rest =>
    match paint world a p with
    | .error e => .error e
    | .ok a => paintAll world a rest

/-- The world of the scenario before its first blast. -/
def build (s : Scenario) : Except AtlasError Atlas :=
  match (Atlas.empty s.vacant).addWorld s.world with
  | .error e => .error e
  | .ok a => paintAll s.world a s.terrain

end Scenario

end Mend
