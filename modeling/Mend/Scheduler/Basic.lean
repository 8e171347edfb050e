import Mend.Intake.Funnel
import Mend.Intake.Sift
import Mend.Ledger
import Mend.Queue.Agenda
import Mend.Queue.Drain
import Mend.Random.Xoshiro
import Mend.Scheduler.Report
import Mend.Settings.Basic
import Mend.Time.Clock

set_option autoImplicit false

/-! # The scheduler: everything between damage and its repair

Cells of damage that was taken in go through three stations: their tasks wait in layers, then,
once their layer is released, on the agenda until their deadline, and then they fire. The set
of pending cells and the ledger say which cells and which damage are underway. -/

namespace Mend

/-- Why a scheduler could not be made or could not go on. -/
inductive SchedulerError where
  | clock (cause : ClockError)
  | settings (cause : SettingsError)
deriving DecidableEq, Inhabited

/-- The wording of a scheduler error. -/
def SchedulerError.message : SchedulerError → String
  | .clock cause => s!"clock error: {cause.message}"
  | .settings cause => s!"config error: {cause.message}"

/-- The state of the scheduler. -/
structure Scheduler where
  clock : Clock
  pacing : Pacing
  radiusPerIntensity : Count
  /-- The largest number of pending cells, if there is one. -/
  cap : Option Nat
  /-- The cells that have a task underway. -/
  pending : Pending
  /-- Tasks whose layer has not been released. -/
  layers : LayerQueue
  drain : Drain
  /-- Tasks waiting for their deadline. -/
  agenda : Agenda Task
  /-- Damage whose cells have not all come out. -/
  ledger : Ledger
  /-- Damage that has been sent but not taken in. -/
  funnel : Funnel
  random : Xoshiro
deriving Inhabited

namespace Scheduler

/-- A scheduler for the given settings, its random delays drawn from the given seed. -/
def new (settings : Regeneration) (seed : Tick) : Except SchedulerError Scheduler :=
  match settings.validate with
  | .error e => .error (.settings e)
  | .ok () => .ok
    { clock := Clock.start
      pacing := settings.pacing
      radiusPerIntensity := settings.radiusPerIntensity
      cap := settings.cap
      pending := Pending.empty
      layers := LayerQueue.empty
      drain := Drain.start settings.layerInterval.recap
      agenda := Agenda.empty
      ledger := Ledger.empty
      funnel := Funnel.empty
      random := Xoshiro.ofSeed (UInt64.ofNat seed.val) }

/-- The tick that ran last. -/
def tickNumber (s : Scheduler) : Tick := s.clock.now

/-- The speed in force. -/
def speed (s : Scheduler) : Speed := s.pacing.speed

/-- Change the speed. Tasks on the agenda keep their deadlines. -/
def withSpeed (s : Scheduler) (speed : Speed) : Scheduler :=
  { s with pacing := s.pacing.withSpeed speed }

/-- Whether a cell has a task underway. -/
def isPending (s : Scheduler) (world : WorldName) (pos : Pos) : Bool :=
  s.pending.contains world pos

/-- Whether nothing is left to do: nothing sent, nothing waiting, nothing in progress. -/
def isIdle (s : Scheduler) : Bool :=
  s.funnel.isEmpty && s.layers.isEmpty && s.agenda.isEmpty && s.ledger.isEmpty

/-- The sizes of everything the scheduler holds. -/
def stats (s : Scheduler) : Stats where
  tick := s.clock.now
  speed := s.pacing.speed
  queuedDamage := s.funnel.size
  pendingCells := s.pending.size
  queuedLayers := s.layers.size
  queuedTasks := s.layers.taskCount
  scheduledTasks := s.agenda.size
  activeDamage := s.ledger.size
  drain := s.drain.phase

/-- Send damage to be taken in on the next tick. -/
def send (s : Scheduler) (id : DamageId) (damage : Damage) : Except FunnelError Scheduler :=
  match s.funnel.send id damage with
  | .error e => .error e
  | .ok funnel => .ok { s with funnel }

/-- Stop, giving up everything that is not done. What is left is the closed funnel; the number
    of abandoned layers is that of the tasks in them. -/
def shutdown (s : Scheduler) : ShutdownReport × Funnel :=
  ({ tick := s.clock.now
     unprocessed := s.funnel.size
     abandonedLayers := s.layers.clear.1
     cancelledTasks := s.layers.taskCount + s.agenda.clear.1
     abandonedDamage := s.ledger.clear.1
     clearedCells := s.pending.clear.1 },
   s.funnel.close)

end Scheduler

end Mend
