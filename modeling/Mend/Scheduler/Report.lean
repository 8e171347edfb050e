import Mend.Damage.Completion
import Mend.Queue.Drain

set_option autoImplicit false

/-! # Reports: what the scheduler says about intake, ticks, its state and its end -/

namespace Mend

/-- Why damage got no task. -/
inductive DiscardReason where
  /-- Regeneration is switched off. -/
  | disabled
  /-- No cell was taken in. -/
  | noEligibleCells
deriving DecidableEq, Inhabited

/-- How damage was taken in. -/
structure Acceptance where
  damage : DamageId
  /-- The number of cells taken in. -/
  cells : Count
  /-- The number of elevations among them. -/
  layers : Nat
  /-- The lowest of these elevations. -/
  lowest : Coord
  alreadyPending : Count
  overCap : Count
deriving DecidableEq, Inhabited

/-- What became of damage on intake. -/
inductive Verdict where
  | accepted (acceptance : Acceptance)
  | discarded (damage : DamageId) (reason : DiscardReason)
deriving DecidableEq, Inhabited

/-- The damage a verdict is about. -/
def Verdict.damage : Verdict → DamageId
  | .accepted a => a.damage
  | .discarded id _ => id

/-- A layer released on a tick. -/
structure Release where
  elevation : Coord
  tasks : Nat
deriving DecidableEq, Inhabited

/-- What happened on one tick. -/
structure TickReport where
  tick : Tick
  /-- What became of the damage from the funnel, in order. -/
  intake : List Verdict
  release : Option Release
  tally : Tally 4294967295
  /-- The damage whose last cell came out, in order. -/
  completions : List Completion
deriving DecidableEq, Inhabited

/-- The number of tasks that fired on the tick. -/
def TickReport.fired (r : TickReport) : Count := r.tally.total

/-- The sizes of everything the scheduler holds. -/
structure Stats where
  tick : Tick
  speed : Speed
  queuedDamage : Nat
  pendingCells : Nat
  queuedLayers : Nat
  queuedTasks : Nat
  scheduledTasks : Nat
  activeDamage : Nat
  drain : Drain.Phase
deriving DecidableEq, Inhabited

/-- What was given up when the scheduler was shut down. -/
structure ShutdownReport where
  tick : Tick
  unprocessed : Nat
  abandonedLayers : Nat
  cancelledTasks : Nat
  abandonedDamage : Nat
  clearedCells : Nat
deriving DecidableEq, Inhabited

end Mend
