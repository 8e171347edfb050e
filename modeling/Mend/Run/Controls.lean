import Mend.Capped

set_option autoImplicit false

/-! # Controls: how a run is steered from outside -/

namespace Mend

/-- The switches of a run. -/
structure Controls where
  paused : Bool
  stopRequested : Bool
  /-- Milliseconds from one tick to the next. -/
  interval : Tick
  /-- The speed to apply before the next tick, if one was asked for. -/
  speedRequest : Option Speed
  /-- The largest number of ticks to run, 0 for any number. -/
  maxTicks : Tick
deriving DecidableEq, Inhabited

namespace Controls

/-- Controls on which nothing has been switched yet. -/
def start (interval maxTicks : Tick) : Controls := ⟨false, false, interval, none, maxTicks⟩

/-- Hold the run before its next tick. -/
def pause (c : Controls) : Controls := { c with paused := true }

/-- Let the run go on. -/
def resume (c : Controls) : Controls := { c with paused := false }

/-- End the run before its next tick. -/
def requestStop (c : Controls) : Controls := { c with stopRequested := true }

/-- Whether a run that comes to its next tick is held there. A stop request lets it through. -/
def holds (c : Controls) : Bool := c.paused && !c.stopRequested

/-- Change the interval. Returns the one before; an interval of zero is refused. -/
def setInterval (c : Controls) (ms : Tick) : Option Tick × Controls :=
  if ms.val = 0 then (none, c) else (some c.interval, { c with interval := ms })

/-- Ask for a speed. -/
def requestSpeed (c : Controls) (speed : Speed) : Controls :=
  { c with speedRequest := some speed }

/-- Take the speed that was asked for. -/
def takeSpeed (c : Controls) : Option Speed × Controls :=
  (c.speedRequest, { c with speedRequest := none })

/-- Whether a run of the given number of ticks has reached the limit. -/
def limitReached (c : Controls) (ticks : Tick) : Bool :=
  0 < c.maxTicks.val && c.maxTicks ≤ ticks

end Controls

end Mend
