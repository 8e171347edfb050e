import Mend.Capped
import Mend.Damage.Content

set_option autoImplicit false

/-! # Pacing: how long a cell waits for its restoration

A cell waits for a base delay that depends on its provenance and shrinks with the speed, plus a
delay for its height above the lowest cell of the same damage, plus a random jitter, and never
less than a least delay. The speed acts through a factor in thousandths, `1 - √(speed / 10)`
rounded, so every step in speed gains less than the one before. -/

namespace Mend

/-- The speed with the given number, cut off at the fastest. -/
def Speed.ofNat (n : Nat) : Speed := Capped.clamp n

/-- The part of the base delay that is left at a speed, in thousandths. -/
def Speed.factor (s : Speed) : Nat :=
  [1000, 684, 553, 452, 368, 293, 225, 163, 106, 51].getD s.val 0

/-- The constants of the delay rule and the speed in force. -/
structure Pacing where
  speed : Speed
  naturalBase : Count
  placedBase : Count
  perLevel : Count
  /-- The largest jitter. -/
  maxJitter : Count
  /-- The least delay, at least one tick. -/
  minDelay : Count
deriving DecidableEq, Inhabited

namespace Pacing

/-- Whether regeneration is switched off. -/
def isDisabled (p : Pacing) : Bool := p.speed.val == 0

/-- The pacing with another speed. -/
def withSpeed (p : Pacing) (speed : Speed) : Pacing := { p with speed }

/-- The base delay before the speed counts. -/
def base (p : Pacing) : Provenance → Tick
  | .natural => p.naturalBase.recap
  | .placed => p.placedBase.recap

/-- The base delay at the speed in force, rounded down. -/
def scaledBase (p : Pacing) (kind : Provenance) : Tick :=
  Capped.clamp ((p.base kind * Capped.clamp p.speed.factor).val / 1000)

/-- The delay for a height. -/
def heightDelay (p : Pacing) (height : Count) : Tick := height.recap * p.perLevel.recap

/-- The delay of a cell with the given jitter. -/
def delay (p : Pacing) (kind : Provenance) (height : Count) (jitter : Tick) : Tick :=
  let sum := p.scaledBase kind + p.heightDelay height + jitter
  if sum ≤ p.minDelay.recap then p.minDelay.recap else sum

end Pacing

end Mend
