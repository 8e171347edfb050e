import Mathlib.Algebra.Ring.Nat
import Mathlib.Order.MinMax
import Mend.Proofs.Pacing

set_option autoImplicit false

/-! # Delays are reckoned as if there were no caps

The delay rule works on numbers with caps, and no cap is ever reached (`Pacing.Unsaturated`): with
counts of 32 bits the sum of the scaled base, the delay for the height and the jitter is at most
2⁶⁴ − 1, and no less in the extreme case. So a delay is what the rule says in numbers without caps
(`Regeneration.plainDelay`); it grows with the height and the jitter, and does not grow with the
speed (`paced_exactly`). -/

namespace Mend

/-- The factor of a speed is `1000 · (1 - √(speed / 10))`, rounded to the nearest integer: twice what
    it takes off the thousand is within one of `2000 · √(speed / 10)`. -/
theorem Speed.factor_rounds (s : Speed) : s.factor ≤ 1000 ∧
    (2 * (1000 - s.factor) - 1) ^ 2 ≤ 400000 * s.val ∧
      400000 * s.val ≤ (2 * (1000 - s.factor) + 1) ^ 2 := by
  have hall : ∀ i : Fin 11,
      let factor := [1000, 684, 553, 452, 368, 293, 225, 163, 106, 51].getD i.val 0
      (2 * (1000 - factor) - 1) ^ 2 ≤ 400000 * i.val ∧
        400000 * i.val ≤ (2 * (1000 - factor) + 1) ^ 2 := by decide
  exact ⟨s.factor_le, hall ⟨s.val, Nat.lt_succ_of_le s.le_max⟩⟩

theorem Speed.ofNat_mono {m n : Nat} (h : m ≤ n) : Speed.ofNat m ≤ Speed.ofNat n := by
  simp only [Speed.ofNat, Capped.le_def, Capped.val_clamp]
  omega

/-! ## The rule without caps -/

/-- The base delay before the speed counts. -/
def Regeneration.base (r : Regeneration) : Provenance → Nat
  | .natural => r.naturalBase.val
  | .placed => r.placedBase.val

/-- The delay rule of the settings at the speed that was asked for. -/
def Regeneration.pacingAt (r : Regeneration) (asked : Nat) : Pacing :=
  r.pacing.withSpeed (Speed.ofNat asked)

/-- The delay of a cell under the settings at the speed that was asked for, reckoned in numbers
    without a cap. -/
def Regeneration.plainDelay (r : Regeneration) (asked : Nat) (kind : Provenance)
    (height jitter : Nat) : Nat :=
  max (max 1 r.minDelay.val)
    (r.base kind * (Speed.ofNat asked).factor / 1000 + height * r.perLevel.val + jitter)

namespace Pacing

/-- No operation that makes up the delay reaches its cap. -/
structure Unsaturated (p : Pacing) (kind : Provenance) (height : Count) (jitter : Tick) :
    Prop where
  product : (p.base kind * Capped.clamp p.speed.factor).val = (p.base kind).val * p.speed.factor
  level : (p.heightDelay height).val = height.val * p.perLevel.val
  sum : (p.scaledBase kind + p.heightDelay height).val
    = (p.scaledBase kind).val + (p.heightDelay height).val
  total : (p.scaledBase kind + p.heightDelay height + jitter).val
    = (p.scaledBase kind).val + (p.heightDelay height).val + jitter.val

variable (p : Pacing) (kind : Provenance)

theorem base_le_count : (p.base kind).val ≤ 4294967295 := by
  have hnatural := p.naturalBase.le_max
  have hplaced := p.placedBase.le_max
  have hbase := p.base_le kind
  omega

/-- The height and the constants of the rule are counts, so their product is at most the square of
    the largest count. -/
theorem height_mul_le (height : Count) :
    height.val * p.perLevel.val ≤ 4294967295 * 4294967295 :=
  Nat.mul_le_mul height.le_max p.perLevel.le_max

/-- A jitter that is a count leaves every operation below its cap. -/
theorem unsaturated (height : Count) {jitter : Tick} (hjitter : jitter.val ≤ 4294967295) :
    p.Unsaturated kind height jitter := by
  have hbase := p.base_le_count kind
  have hscaled := p.scaledBase_le kind
  have hproduct : (p.base kind).val * p.speed.factor ≤ 4294967295 * 1000 :=
    Nat.mul_le_mul hbase p.speed.factor_le
  have hfactor := p.speed.factor_le
  have hlevel := p.height_mul_le height
  have hheight := height.le_max
  have hperLevel := p.perLevel.le_max
  have hlevelled : (p.heightDelay height).val = height.val * p.perLevel.val := by
    simp only [heightDelay, Capped.val_mul, Capped.val_recap]
    rw [Nat.min_eq_left (by omega : height.val ≤ 18446744073709551615),
      Nat.min_eq_left (by omega : p.perLevel.val ≤ 18446744073709551615)]
    omega
  refine ⟨?_, hlevelled, ?_, ?_⟩
  · rw [Capped.val_mul, Capped.val_clamp,
      Nat.min_eq_left (by omega : p.speed.factor ≤ 18446744073709551615)]
    omega
  · rw [Capped.val_add]
    omega
  · rw [Capped.val_add, Capped.val_add]
    omega

/-- A higher cell with a larger jitter waits no shorter. -/
theorem delay_mono {height tall : Count} (hheight : height ≤ tall) {jitter other : Tick}
    (hjitter : jitter ≤ other) : p.delay kind height jitter ≤ p.delay kind tall other := by
  have hlevel := p.heightDelay_mono hheight
  rw [Capped.le_def] at hjitter ⊢
  rw [val_delay, val_delay]
  simp only [Capped.val_add]
  omega

/-- At a higher speed a cell waits no longer. -/
theorem delay_anti {v w : Speed} (h : v ≤ w) (height : Count) (jitter : Tick) :
    (p.withSpeed w).delay kind height jitter ≤ (p.withSpeed v).delay kind height jitter := by
  have hscaled := p.scaledBase_anti kind h
  have hlevel : (p.withSpeed w).heightDelay height = (p.withSpeed v).heightDelay height := rfl
  have hmin : (p.withSpeed w).minDelay = (p.withSpeed v).minDelay := rfl
  rw [Capped.le_def, val_delay, val_delay, hlevel, hmin]
  simp only [Capped.val_add]
  omega

end Pacing

/-! ## The delays of the settings -/

namespace Regeneration

variable (r : Regeneration) (asked : Nat)

theorem val_minDelay_pacingAt : (r.pacingAt asked).minDelay.val = max 1 r.minDelay.val :=
  r.val_minDelay

theorem val_base_pacingAt (kind : Provenance) :
    ((r.pacingAt asked).base kind).val = r.base kind := by
  have hnatural := r.naturalBase.le_max
  have hplaced := r.placedBase.le_max
  cases kind with
  | natural =>
      show min r.naturalBase.val 18446744073709551615 = r.naturalBase.val
      omega
  | placed =>
      show min r.placedBase.val 18446744073709551615 = r.placedBase.val
      omega

/-- With a jitter that may be drawn, a delay is what the rule says without caps. -/
theorem val_delay_pacingAt (kind : Provenance) (height : Count) {jitter : Tick}
    (hjitter : jitter.val ≤ r.maxJitter.val) :
    ((r.pacingAt asked).delay kind height jitter).val
      = r.plainDelay asked kind height.val jitter.val := by
  have hmax := r.maxJitter.le_max
  have hplain : (r.pacingAt asked).Unsaturated kind height jitter :=
    (r.pacingAt asked).unsaturated kind height (by omega)
  have hscaled : ((r.pacingAt asked).scaledBase kind).val
      = r.base kind * (Speed.ofNat asked).factor / 1000 := by
    have hbase := (r.pacingAt asked).base_le_count kind
    have hproduct : ((r.pacingAt asked).base kind).val * (r.pacingAt asked).speed.factor
        ≤ 4294967295 * 1000 := Nat.mul_le_mul hbase (Speed.factor_le _)
    rw [Pacing.scaledBase, Capped.val_clamp, hplain.product, ← r.val_base_pacingAt asked]
    show min (_ * (r.pacingAt asked).speed.factor / 1000) _ = _ * (r.pacingAt asked).speed.factor / _
    omega
  rw [Pacing.val_delay, hplain.total, hscaled, hplain.level, val_minDelay_pacingAt]
  rfl

/-- What the settings say about delays at the speed that was asked for. -/
structure PacedExactly (r : Regeneration) (asked : Nat) : Prop where
  /-- No generator draws a jitter above the largest. -/
  drawn : ∀ g : Xoshiro, (g.draw (r.pacingAt asked).maxJitter.val).1 ≤ r.maxJitter.val
  /-- The factor of the speed is `1000 · (1 - √(speed / 10))`, rounded. -/
  factor : (Speed.ofNat asked).factor ≤ 1000 ∧
    (2 * (1000 - (Speed.ofNat asked).factor) - 1) ^ 2 ≤ 400000 * min asked 10 ∧
      400000 * min asked 10 ≤ (2 * (1000 - (Speed.ofNat asked).factor) + 1) ^ 2
  unsaturated : ∀ kind height (jitter : Tick), jitter.val ≤ r.maxJitter.val →
    (r.pacingAt asked).Unsaturated kind height jitter
  /-- The delay is what the rule says without caps, and fits. -/
  reckoned : ∀ kind (height : Count) (jitter : Tick), jitter.val ≤ r.maxJitter.val →
    ((r.pacingAt asked).delay kind height jitter).val
        = r.plainDelay asked kind height.val jitter.val ∧
      r.plainDelay asked kind height.val jitter.val ≤ 18446744073709551615
  grows : ∀ kind {height tall : Count} {jitter other : Tick}, height ≤ tall → jitter ≤ other →
    (r.pacingAt asked).delay kind height jitter ≤ (r.pacingAt asked).delay kind tall other
  shrinks : ∀ {faster : Nat}, asked ≤ faster → ∀ kind height jitter,
    (r.pacingAt faster).delay kind height jitter ≤ (r.pacingAt asked).delay kind height jitter
  least : ∀ kind height jitter,
    max 1 r.minDelay.val ≤ ((r.pacingAt asked).delay kind height jitter).val

end Regeneration

/-- **Delays are exact.** Under all settings, the speed in force being the one in the settings or any
    other that is asked for, the jitter drawn is at most the largest, no operation of the delay rule
    reaches its cap, and the delay is what the rule says in numbers without caps. It does not
    shrink as the height or the jitter grows, does not grow with the speed, and is never below the
    least delay. -/
theorem paced_exactly (r : Regeneration) :
    r.pacing = r.pacingAt r.speed.val ∧ ∀ asked, r.PacedExactly asked := by
  refine ⟨rfl, ?_⟩
  intro asked
  have hmax := r.maxJitter.le_max
  refine
    { drawn := fun g => g.draw_le r.maxJitter.val
      factor := (Speed.ofNat asked).factor_rounds
      unsaturated := ?_
      reckoned := ?_
      grows := fun kind _ _ _ _ hheight hjitter =>
        (r.pacingAt asked).delay_mono kind hheight hjitter
      shrinks := fun h kind => r.pacing.delay_anti kind (Speed.ofNat_mono h)
      least := ?_ }
  · intro kind height jitter hjitter
    exact (r.pacingAt asked).unsaturated kind height (by omega)
  · intro kind height jitter hjitter
    have hdelay := r.val_delay_pacingAt asked kind height hjitter
    refine ⟨hdelay, ?_⟩
    rw [← hdelay]
    exact ((r.pacingAt asked).delay kind height jitter).le_max
  · intro kind height jitter
    rw [Pacing.val_delay, r.val_minDelay_pacingAt asked]
    exact Nat.le_max_left _ _

/-- The largest counts make the largest delay there is, and nothing is cut off. -/
theorem paced_exactly_at_largest :
    let largest : Count := Capped.clamp 4294967295
    let r := { Regeneration.default with
      speed := 0, naturalBase := largest, perLevel := largest, maxJitter := largest }
    r.PacedExactly 0 ∧
      (r.pacingAt 0).Unsaturated .natural largest (Capped.clamp 4294967295) ∧
      r.plainDelay 0 .natural largest.val 4294967295 = 18446744073709551615 := by
  intro largest r
  have hexact := (paced_exactly r).2 0
  exact ⟨hexact, hexact.unsaturated .natural largest (Capped.clamp 4294967295) (by decide),
    by decide⟩

end Mend
