import Mend.Atlas.Restore
import Mend.Run.Loop
import Mend.Scenario.Basic

set_option autoImplicit false

/-! # Scripts: setting off the blasts of a scenario while it runs

A script watches a run. After each tick it clears fire from the hazard boxes of the completions
of that tick, and then sets off the blasts that are due and sends the damage they did. The damage
is named out of a supply of identifiers, the next one each time; where no supply is given, they are
numbers counted up. -/

namespace Mend

/-- A scenario as it plays. -/
structure Script where
  world : WorldName
  /-- The blasts to come, by the tick on which they go off. -/
  cues : Agenda Blast
  clearFire : Bool
  /-- The number of blasts whose damage was sent. -/
  blasts : Count
  /-- The number of cells whose fire was cleared. -/
  fireCleared : Nat
  /-- The identifiers for the damage, in the order in which they are given. -/
  ids : Nat → DamageId
  /-- The number of identifiers that were given. -/
  given : Nat
deriving Inhabited

namespace Script

/-- The script of a scenario before its first blast. Blasts of one tick keep their order, and what
    they do gets its identifiers from the given supply. -/
def ofScenario (s : Scenario) (ids : Nat → DamageId := DamageId.ofNat) : Script where
  world := s.world
  cues := s.cues.foldl (fun agenda cue => agenda.schedule cue.tick cue.blast) Agenda.empty
  clearFire := s.clearFire
  blasts := 0
  fireCleared := 0
  ids
  given := 0

/-- A script with the atlas and the funnel that it acts on. -/
structure Stage where
  script : Script
  atlas : Atlas
  funnel : Funnel

/-- Set off one blast and send its damage. A blast that cannot go off is passed over. -/
def Stage.detonate (s : Stage) (blast : Blast) : Stage :=
  match s.atlas.explode s.script.world blast with
  | (.error _, atlas) => { s with atlas }
  | (.ok damage, atlas) =>
    let script := { s.script with given := s.script.given + 1 }
    match s.funnel.send (s.script.ids s.script.given) damage with
    | .error _ => { s with script, atlas }
    | .ok funnel => ⟨{ script with blasts := script.blasts + 1 }, atlas, funnel⟩

/-- Set off every blast that is due by the given tick. -/
def Stage.detonateDue (s : Stage) (tick : Tick) : Stage :=
  let (due, cues) := s.script.cues.drain tick
  due.foldl Stage.detonate { s with script := { s.script with cues } }

/-- Clear the fire that is left in the hazard box of a completion. -/
def Stage.cleanUp (s : Stage) (done : Completion) : Stage :=
  match s.atlas.clearBox done.world done.hazard fireMaterial with
  | (.error _, atlas) => { s with atlas }
  | (.ok cleared, atlas) =>
    { s with
      script := { s.script with fireCleared := s.script.fireCleared + cleared }
      atlas }

/-- Act on the report of a tick. -/
def Stage.afterTick (s : Stage) (report : TickReport) : Stage :=
  let s := if s.script.clearFire then report.completions.foldl Stage.cleanUp s else s
  s.detonateDue report.tick

/-- Whether blasts are still to come. -/
def hasPendingWork (s : Script) : Bool := !s.cues.isEmpty

instance : Observer Script Atlas where
  afterTick script report reach :=
    let s := Stage.afterTick ⟨script, reach.world, reach.funnel⟩ report
    (s.script, { reach with world := s.atlas, funnel := s.funnel })
  hasPendingWork := hasPendingWork
  duringPause script reach := (script, reach)

end Script

end Mend
