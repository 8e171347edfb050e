import Mend.Queue.Layer

set_option autoImplicit false

/-! # Draining: the pace at which layers are released

A drain is idle, or it releases the lowest waiting layer as soon as its next release is due and
then waits `interval` ticks. A release that finds the queue empty sends it back to idle; new
tasks wake it. -/

namespace Mend

/-- Whether layers are being released. -/
inductive Drain.Phase where
  | idle
  /-- The next layer may go on this tick or later. -/
  | draining (nextAt : Tick)
deriving DecidableEq, Inhabited

/-- The pace of releases and the phase it is in. -/
structure Drain where
  interval : Tick
  phase : Drain.Phase
deriving DecidableEq, Inhabited

namespace Drain

/-- An idle drain that releases one layer every `interval` ticks. -/
def start (interval : Tick) : Drain := ⟨interval, .idle⟩

/-- Whether the drain is idle. -/
def isIdle (d : Drain) : Bool :=
  match d.phase with
  | .idle => true
  | .draining _ => false

/-- Start draining at once if idle; a drain in progress keeps its next release. -/
def wake (d : Drain) (now : Tick) : Drain :=
  match d.phase with
  | .idle => { d with phase := .draining now }
  | .draining _ => d

/-- Release the lowest layer if a release is due; if there is none, go idle. -/
def poll (d : Drain) (now : Tick) (q : LayerQueue) : Option Layer × Drain × LayerQueue :=
  match d.phase with
  | .idle => (none, d, q)
  | .draining nextAt =>
    if now < nextAt then (none, d, q)
    else
      match q.popLowest with
      | some (layer, rest) => (some layer, { d with phase := .draining (now + d.interval) }, rest)
      | none => (none, { d with phase := .idle }, q)

/-- Go idle whatever waits. -/
def reset (d : Drain) : Drain := { d with phase := .idle }

end Drain

end Mend
