import Mend.Capped

set_option autoImplicit false

/-! # The tick clock -/

namespace Mend

/-- Why the clock cannot go on. -/
inductive ClockError where
  /-- The tick number is the largest there is. -/
  | tickOverflow
deriving DecidableEq, Inhabited

/-- The wording of a clock error. -/
def ClockError.message : ClockError → String
  | .tickOverflow => "tick counter overflow: cannot advance beyond u64::MAX"

/-- A clock that counts ticks. -/
structure Clock where
  now : Tick
deriving DecidableEq, Inhabited

namespace Clock

/-- A clock before its first tick. -/
def start : Clock := ⟨0⟩

/-- The clock one tick later. -/
def advance (c : Clock) : Except ClockError Clock :=
  if c.now.val < 18446744073709551615 then .ok ⟨c.now + 1⟩ else .error .tickOverflow

/-- The tick that comes `delay` ticks after now, or the last tick there is. -/
def deadline (c : Clock) (delay : Tick) : Tick := c.now + delay

/-- The number of ticks the clock can still count. -/
def ticksLeft (c : Clock) : Nat := 18446744073709551615 - c.now.val

theorem now_of_advance {c d : Clock} (h : c.advance = .ok d) : d.now.val = c.now.val + 1 := by
  unfold advance at h
  split at h
  · next hlt =>
    cases h
    simp only [Capped.val_add, Capped.val_ofNat]
    omega
  · cases h

/-- A clock that cannot move stands at the last tick there is. -/
theorem now_of_advance_error {c : Clock} {e : ClockError} (h : c.advance = .error e) :
    c.now.val = 18446744073709551615 := by
  have hmax := c.now.le_max
  unfold advance at h
  split at h
  · cases h
  · omega

end Clock

end Mend
