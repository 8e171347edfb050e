import Mend.Scheduler.Accept
import Mend.Scheduler.Host

set_option autoImplicit false

/-! # One tick of the scheduler

A tick moves the clock, takes in what was sent, releases a layer if one is due, and fires every
task whose deadline has come. The first three steps never look at the world or the listener. -/

namespace Mend

namespace Scheduler

/-! ## Releasing a layer -/

/-- Put a task of a released layer on the agenda, its delay drawn now. -/
def scheduleTask (s : Scheduler) (t : Task) : Scheduler :=
  let (jitter, random) := s.random.draw s.pacing.maxJitter.val
  let delay := s.pacing.delay t.provenance t.height (Capped.clamp jitter)
  { s with random, agenda := s.agenda.schedule (s.clock.deadline delay) t }

/-- Release the lowest layer if that is due. -/
def release (s : Scheduler) : Option Release × Scheduler :=
  match s.drain.poll s.clock.now s.layers with
  | (none, drain, layers) => (none, { s with drain, layers })
  | (some layer, drain, layers) =>
    (some ⟨layer.elevation, layer.tasks.length⟩,
     layer.tasks.foldl scheduleTask { s with drain, layers })

/-- The steps of a tick that come before firing: clock, intake, release. -/
def prepare (s : Scheduler) :
    Except ClockError ((List Verdict × Option Release) × Scheduler) :=
  match s.clock.advance with
  | .error e => .error e
  | .ok clock =>
    let (verdicts, s) := { s with clock }.takeIn
    let (released, s) := s.release
    .ok ((verdicts, released), s)

/-! ## Firing tasks -/

/-- Restore the cell of a task if nothing else stands there by now. -/
def fire {ω : Type} [Ground ω] (world : ω) (t : Task) : Outcome × ω :=
  if Ground.isVacant world t.world t.pos then
    match Ground.restore world t.world t.pos t.content with
    | (.ok (), world) => (.restored, (Ground.signal world t.world t.pos).2)
    | (.error _, world) => (.failed, world)
  else (.skipped, world)

/-- The completion for a record that closes on this tick. -/
def completion (s : Scheduler) (r : Record) : Completion :=
  let radius := r.intensity * s.radiusPerIntensity
  { damage := r.damage, world := r.world, origin := r.origin, intensity := r.intensity, radius,
    hazard := Box.around r.origin radius, tally := r.tally, submitted := r.submitted,
    completed := s.clock.now }

/-- Note that a task came out: its cell is no longer pending, and its record is charged. -/
def settle (s : Scheduler) (t : Task) (o : Outcome) : Option Completion × Scheduler :=
  let (closed, ledger) := s.ledger.resolve t.damage o
  (closed.map s.completion,
   { s with pending := (s.pending.remove t.world t.pos).2, ledger })

/-- What has happened so far while the due tasks of a tick fire. -/
structure Firing (ω η : Type) where
  scheduler : Scheduler
  world : ω
  listener : η
  tally : Tally 4294967295
  /-- Completions so far, last first. -/
  completions : List Completion

/-- Fire one task. A listener that fails is not asked again. -/
def Firing.step {ω η : Type} [Ground ω] [Listener η] (f : Firing ω η) (t : Task) : Firing ω η :=
  let (outcome, world) := fire f.world t
  let tally := f.tally.record outcome
  match f.scheduler.settle t outcome with
  | (none, scheduler) => { f with scheduler, world, tally }
  | (some done, scheduler) =>
    { scheduler, world, tally, listener := (Listener.notify f.listener done).2,
      completions := done :: f.completions }

/-- Fire every task whose deadline has come, earliest deadline first. -/
def fireDue {ω η : Type} [Ground ω] [Listener η] (s : Scheduler) (world : ω) (listener : η) :
    Firing ω η :=
  let (due, agenda) := s.agenda.drain s.clock.now
  due.foldl Firing.step
    { scheduler := { s with agenda }, world, listener, tally := Tally.zero, completions := [] }

/-! ## The whole tick -/

/-- What a tick leaves behind. -/
structure Ticked (ω η : Type) where
  report : TickReport
  scheduler : Scheduler
  world : ω
  listener : η

/-- Run one tick. It fails only if the clock cannot go on, and then nothing has changed. -/
def tick {ω η : Type} [Ground ω] [Listener η] (s : Scheduler) (world : ω) (listener : η) :
    Except SchedulerError (Ticked ω η) :=
  match s.prepare with
  | .error e => .error (.clock e)
  | .ok ((intake, released), s) =>
    let f := s.fireDue world listener
    .ok
      { report :=
          { tick := s.clock.now, intake, release := released, tally := f.tally,
            completions := f.completions.reverse }
        scheduler := f.scheduler
        world := f.world
        listener := f.listener }

end Scheduler

end Mend
