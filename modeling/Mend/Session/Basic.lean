import Mend.Journal
import Mend.Scenario.Document
import Mend.Scenario.Script
import Mend.Session.Error
import Mend.Settings.Document

set_option autoImplicit false

/-! # Sessions: playing a scenario from start to end

A session builds the world of a scenario, sets off the blasts that come before the first tick,
runs until there is nothing left to do, and shuts down. -/

namespace Mend

/-- What a session is to play, and how. -/
structure Plan where
  settings : Settings
  scenario : Scenario
deriving DecidableEq, Inhabited

namespace Plan

/-- The plan in the bytes of a file, with the speed that a text from outside asks for. -/
def load (bytes : ByteArray) (speed : Option String) : Except SessionError Plan :=
  match Settings.load bytes speed with
  | .error e => .error (.settings e)
  | .ok settings =>
    match (String.fromUTF8? bytes).bind Scenario.ofText? with
    | none => .error (.scenario "not a scenario document")
    | some scenario => .ok ⟨settings, scenario⟩

/-- The plan where there is no file. -/
def withoutFile (speed : Option String) : Except SessionError Plan :=
  match (Settings.default.withSpeedText speed).validated with
  | .error e => .error (.settings e)
  | .ok settings => .ok ⟨settings, Scenario.default⟩

end Plan

/-- A session whose first blasts have gone off and whose first tick is to come. -/
structure Session where
  scheduler : Scheduler
  atlas : Atlas
  script : Script
  controls : Controls

namespace Session

/-- Open a session. Its random delays are drawn from the seed of the settings or, where they
    have none, from the given one; its damage gets identifiers from the given supply. -/
def start (plan : Plan) (seed : Tick) (ids : Nat → DamageId := DamageId.ofNat) :
    Except SessionError Session :=
  match plan.scenario.build with
  | .error e => .error (.atlas e)
  | .ok atlas =>
    let regeneration := plan.settings.regeneration
    match Scheduler.new regeneration (regeneration.seed.getD seed) with
    | .error e => .error (.scheduler e)
    | .ok scheduler =>
      let script := Script.ofScenario plan.scenario ids
      let stage := Script.Stage.detonateDue ⟨script, atlas, scheduler.funnel⟩ 0
      .ok
        { scheduler := { scheduler with funnel := stage.funnel }
          atlas := stage.atlas
          script := stage.script
          controls := Controls.start plan.settings.tickInterval plan.scenario.maxTicks }

/-- The run of a session under an observer. -/
def run {ο : Type} (s : Session) (observer : ο) : Run Atlas Journal ο :=
  Run.start s.scheduler s.atlas Journal.empty observer s.controls

end Session

/-- What a session came to. -/
structure Summary where
  ending : Ending
  ticks : Tick
  blasts : Count
  /-- The number of completions that were reported. -/
  completed : Nat
  fireCleared : Nat
  remainingFire : Nat
  /-- The number of events given up at the end. -/
  abandoned : Nat
  /-- The number of cells that are not empty. -/
  solidCells : Nat
deriving DecidableEq, Inhabited

namespace Summary

/-- The summary of a run that has ended. -/
def ofRun (result : RunResult) (r : Run Atlas Journal Script) : Summary where
  ending := result.ending
  ticks := result.ticks
  blasts := r.observer.blasts
  completed := r.listener.entries.length
  fireCleared := r.observer.fireCleared
  remainingFire := r.world.countMaterial r.observer.world fireMaterial
  abandoned := r.scheduler.shutdown.1.abandonedDamage
  solidCells := r.world.solidCount r.observer.world

/-- The name of an ending. -/
def endingName : Ending → String
  | .idle => "Idle"
  | .maxTicks => "MaxTicksReached"
  | .stopped => "OperatorStop"

/-- The parts of a summary by name. -/
def fields (s : Summary) : List (String × String) :=
  [("end_reason", endingName s.ending),
    ("total_ticks", toString s.ticks),
    ("blasts", toString s.blasts),
    ("completed_events", toString s.completed),
    ("fire_cleared", toString s.fireCleared),
    ("remaining_fire", toString s.remainingFire),
    ("abandoned_events", toString s.abandoned),
    ("solid_cells", toString s.solidCells)]

/-- The written form. -/
def text (s : Summary) : String :=
  " ".intercalate (s.fields.map fun field => field.1 ++ "=" ++ field.2)

end Summary

/-- Play a session to its end. -/
def Session.play (s : Session) : Except SessionError Summary :=
  match (s.run s.script).run .untilIdle with
  | (.error e, _) => .error (.run e)
  | (.ok result, r) => .ok (Summary.ofRun result r)

end Mend
