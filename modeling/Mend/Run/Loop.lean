import Mend.Run.Controls
import Mend.Scheduler.Tick

set_option autoImplicit false

/-! # Runs: ticking until there is nothing left to do

A run repeats the same round: wait while it is paused, stop if that was asked for, apply a
requested speed, tick, show the report to the observer, and see whether the run is over. The
observer may change the world, send damage and move the controls, so it stands for everything
that acts on a run from outside. A run always ends, because the clock does. -/

namespace Mend

/-- Why a run ended. -/
inductive Ending where
  /-- There was nothing left to do. -/
  | idle
  /-- The limit on ticks was reached. -/
  | maxTicks
  /-- A stop was requested. -/
  | stopped
deriving DecidableEq, Inhabited

/-- Whether a run ends by itself once there is nothing left to do. -/
inductive RunMode where
  | untilIdle
  | untilStopped
deriving DecidableEq, Inhabited

/-- Why a run could not go on. -/
structure RunError where
  cause : SchedulerError
deriving DecidableEq, Inhabited

/-- The wording of a run error. -/
def RunError.message (e : RunError) : String := s!"tick error: {e.cause.message}"

/-- What can be reached from outside between two ticks. -/
structure Reach (ω : Type) where
  world : ω
  funnel : Funnel
  controls : Controls

/-- A type of observers of runs over ground of type `ω`. -/
class Observer (ο ω : Type) where
  /-- What is done after each tick. -/
  afterTick : ο → TickReport → Reach ω → ο × Reach ω
  /-- Whether the observer is going to send more damage. -/
  hasPendingWork : ο → Bool
  /-- What is done while the run is held by a pause. -/
  duringPause : ο → Reach ω → ο × Reach ω

/-- The observer that does nothing. -/
instance {ω : Type} : Observer Unit ω where
  afterTick u _ reach := (u, reach)
  hasPendingWork _ := false
  duringPause u reach := (u, reach)

/-- A run in progress. -/
structure Run (ω η ο : Type) where
  scheduler : Scheduler
  world : ω
  listener : η
  observer : ο
  controls : Controls
  /-- The number of ticks run. -/
  ticks : Tick
  tally : Tally 18446744073709551615
  /-- The number of completions. -/
  completed : Tick

/-- The outcome of a run. -/
structure RunResult where
  ending : Ending
  ticks : Tick
  stats : Stats
  tally : Tally 18446744073709551615
  completed : Tick
deriving DecidableEq, Inhabited

namespace Run

variable {ω η ο : Type}

/-- A run that has not ticked yet. -/
def start (scheduler : Scheduler) (world : ω) (listener : η) (observer : ο)
    (controls : Controls) : Run ω η ο :=
  ⟨scheduler, world, listener, observer, controls, 0, Tally.zero, 0⟩

/-- What can be reached from outside. -/
def reach (r : Run ω η ο) : Reach ω := ⟨r.world, r.scheduler.funnel, r.controls⟩

/-- The run after its observer has acted. -/
def observed (r : Run ω η ο) (acted : ο × Reach ω) : Run ω η ο :=
  { r with
    observer := acted.1
    world := acted.2.world
    scheduler := { r.scheduler with funnel := acted.2.funnel }
    controls := acted.2.controls }

/-- Sit out a pause, which ends when the run is resumed or a stop is requested. -/
def sitOutPause [Observer ο ω] (r : Run ω η ο) : Run ω η ο :=
  if r.controls.holds then
    let r := r.observed (Observer.duringPause r.observer r.reach)
    if r.controls.stopRequested then r else { r with controls := r.controls.resume }
  else r

/-- Apply the speed that was asked for, if one was. -/
def applySpeed (r : Run ω η ο) : Run ω η ο :=
  match r.controls.takeSpeed with
  | (none, _) => r
  | (some speed, controls) => { r with scheduler := r.scheduler.withSpeed speed, controls }

/-- Tick once and let the observer see the report. -/
def tick [Ground ω] [Listener η] [Observer ο ω] (r : Run ω η ο) :
    Except SchedulerError (Run ω η ο) :=
  match r.scheduler.tick r.world r.listener with
  | .error e => .error e
  | .ok t =>
    let r : Run ω η ο :=
      { r with
        scheduler := t.scheduler
        world := t.world
        listener := t.listener
        ticks := r.ticks + 1
        tally := r.tally.plus t.report.tally
        completed := r.completed + Capped.clamp t.report.completions.length }
    .ok (r.observed (Observer.afterTick r.observer t.report r.reach))

/-- Whether the run is over after a tick. Having nothing left to do counts before the limit. -/
def ending? [Observer ο ω] (r : Run ω η ο) (mode : RunMode) : Option Ending :=
  if mode == .untilIdle && r.scheduler.isIdle && !Observer.hasPendingWork ω r.observer then
    some .idle
  else if r.controls.limitReached r.ticks then some .maxTicks
  else none

/-- How one round came out. -/
inductive Round where
  | goesOn
  | ended (ending : Ending)
  | failed (error : SchedulerError)
deriving DecidableEq, Inhabited

/-- One round of the run. -/
def round [Ground ω] [Listener η] [Observer ο ω] (r : Run ω η ο) (mode : RunMode) :
    Round × Run ω η ο :=
  let r := r.sitOutPause
  if r.controls.stopRequested then (.ended .stopped, r)
  else
    let r := r.applySpeed
    match r.tick with
    | .error e => (.failed e, r)
    | .ok r =>
      match r.ending? mode with
      | some ending => (.ended ending, r)
      | none => (.goesOn, r)

/-- Repeat rounds until one is the last, at most as often as the number says. -/
def rounds [Ground ω] [Listener η] [Observer ο ω] (mode : RunMode) :
    Nat → Run ω η ο → Except SchedulerError Ending × Run ω η ο
  | 0, r => (.error (.clock .tickOverflow), r)
  | n + 1, r =>
    match r.round mode with
    | (.goesOn, r) => rounds mode n r
    | (.ended ending, r) => (.ok ending, r)
    | (.failed e, r) => (.error e, r)

/-- The result of a run that ended. -/
def result (r : Run ω η ο) (ending : Ending) : RunResult :=
  ⟨ending, r.ticks, r.scheduler.stats, r.tally, r.completed⟩

/-- Run to the end. Every round but the last ticks, so the ticks that the clock has left bound
    the number of rounds. -/
def run [Ground ω] [Listener η] [Observer ο ω] (r : Run ω η ο) (mode : RunMode) :
    Except RunError RunResult × Run ω η ο :=
  match rounds mode (r.scheduler.clock.ticksLeft + 1) r with
  | (.ok ending, r) => (.ok (r.result ending), r)
  | (.error e, r) => (.error ⟨e⟩, r)

end Run

end Mend
