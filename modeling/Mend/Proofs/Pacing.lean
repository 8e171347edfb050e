import Mathlib.Tactic.SplitIfs
import Mend.Random.Xoshiro
import Mend.Settings.Basic

set_option autoImplicit false

/-! # Bounds on delays

No speed makes a base delay longer, and no jitter is drawn above the largest. So the settings and
the height of a cell bound its delay, whatever the speed is when the delay is drawn and whatever the
generator gives (`Pacing.delay_le`); and of two cells the one that is no higher and meets a speed
that is no lower waits no longer than the other, but for its jitter
(`Pacing.delay_le_delay_add`). -/

namespace Mend

/-! ## Drawn numbers -/

/-- The high half of a product of a word and a range, with the carry from a second product, stays
    below the range. -/
theorem high_add_carry_lt {a b range words : Nat} (ha : a < words) (hb : b < words)
    (hrange : 0 < range) :
    a * range / words + (a * range % words + b * range / words) / words < range := by
  have hwords : 0 < words := by omega
  have hcarry : b * range / words < range := by
    rw [Nat.div_lt_iff_lt_mul hwords, Nat.mul_comm range]
    exact Nat.mul_lt_mul_of_pos_right hb hrange
  have hproduct : a * range + range ≤ words * range := by
    rw [← Nat.succ_mul]
    exact Nat.mul_le_mul_right range ha
  calc a * range / words + (a * range % words + b * range / words) / words
      = (a * range % words + b * range / words + words * (a * range / words)) / words := by
        rw [Nat.add_mul_div_left _ _ hwords, Nat.add_comm]
    _ = (a * range + b * range / words) / words := by
        have hsplit := Nat.mod_add_div (a * range) words
        congr 1
        omega
    _ < range := by
        rw [Nat.div_lt_iff_lt_mul hwords, Nat.mul_comm range]
        omega

/-- A number that is drawn is not above the largest that may be. -/
theorem Xoshiro.draw_le (g : Xoshiro) (max : Nat) : (g.draw max).1 ≤ max := by
  have hword : ∀ w : UInt64, w.toNat < wordCount := fun w => w.toNat_lt
  have hlt := fun a b : UInt64 => high_add_carry_lt (hword a) (hword b) (Nat.succ_pos max)
  unfold draw
  split_ifs with hzero
  · exact Nat.zero_le max
  · simp only
    split_ifs
    · exact Nat.le_of_lt_succ (hlt g.next.1 g.next.2.next.1)
    · exact Nat.le_of_lt_succ (Nat.lt_of_le_of_lt (Nat.le_add_right _ _)
        (hlt g.next.1 g.next.2.next.1))

/-! ## Delays -/

/-- A speed leaves at most the whole of a base delay. -/
theorem Speed.factor_le (s : Speed) : s.factor ≤ 1000 := by
  rw [factor, List.getD_eq_getElem?_getD]
  cases h : [1000, 684, 553, 452, 368, 293, 225, 163, 106, 51][s.val]? with
  | none => exact Nat.zero_le 1000
  | some x =>
      have hall : ∀ x ∈ [1000, 684, 553, 452, 368, 293, 225, 163, 106, 51], x ≤ 1000 := by decide
      exact hall x (List.mem_of_getElem? h)

/-- A higher speed leaves no more of a base delay. -/
theorem Speed.factor_anti {v w : Speed} (h : v ≤ w) : w.factor ≤ v.factor := by
  have hall : ∀ i j : Fin 11, i ≤ j →
      [1000, 684, 553, 452, 368, 293, 225, 163, 106, 51].getD j.val 0
        ≤ [1000, 684, 553, 452, 368, 293, 225, 163, 106, 51].getD i.val 0 := by decide
  exact hall ⟨v.val, Nat.lt_succ_of_le v.le_max⟩ ⟨w.val, Nat.lt_succ_of_le w.le_max⟩ h

namespace Pacing

/-- No speed makes a base delay longer. -/
theorem scaledBase_le (p : Pacing) (kind : Provenance) :
    (p.scaledBase kind).val ≤ (p.base kind).val := by
  have hscaled : (p.base kind).val * min p.speed.factor 18446744073709551615
      ≤ (p.base kind).val * 1000 :=
    Nat.mul_le_mul_left _ (Nat.le_trans (Nat.min_le_left _ _) p.speed.factor_le)
  simp only [scaledBase, Capped.val_clamp, Capped.val_mul]
  omega

theorem base_le (p : Pacing) (kind : Provenance) :
    (p.base kind).val ≤ max p.naturalBase.val p.placedBase.val := by
  cases kind <;> simp only [base, Capped.val_recap] <;> omega

theorem heightDelay_le (p : Pacing) {height : Count} {tallest : Nat} (h : height.val ≤ tallest) :
    (p.heightDelay height).val ≤ tallest * p.perLevel.val := by
  have hmul : min height.val 18446744073709551615 * min p.perLevel.val 18446744073709551615
      ≤ tallest * p.perLevel.val :=
    Nat.mul_le_mul (Nat.le_trans (Nat.min_le_left _ _) h) (Nat.min_le_left _ _)
  simp only [heightDelay, Capped.val_mul, Capped.val_recap]
  omega

/-- The delay is the larger of the least delay and the sum of its parts. -/
theorem val_delay (p : Pacing) (kind : Provenance) (height : Count) (jitter : Tick) :
    (p.delay kind height jitter).val
      = max p.minDelay.val (p.scaledBase kind + p.heightDelay height + jitter).val := by
  have hmin := p.minDelay.le_max
  unfold delay
  simp only [Capped.le_def, Capped.val_recap]
  split_ifs
  · rw [Capped.val_recap]
    omega
  · omega

/-- The delay of a cell is bounded by its height, the constants of the rule and the jitter. -/
theorem delay_le (p : Pacing) (kind : Provenance) {height : Count} {jitter : Tick} {tallest : Nat}
    (hheight : height.val ≤ tallest) (hjitter : jitter.val ≤ p.maxJitter.val) :
    (p.delay kind height jitter).val ≤ max p.minDelay.val
      (max p.naturalBase.val p.placedBase.val + tallest * p.perLevel.val + p.maxJitter.val) := by
  have hbase := Nat.le_trans (p.scaledBase_le kind) (p.base_le kind)
  have hlevel := p.heightDelay_le hheight
  rw [val_delay]
  simp only [Capped.val_add]
  omega

theorem scaledBase_anti (p : Pacing) (kind : Provenance) {v w : Speed} (h : v ≤ w) :
    ((p.withSpeed w).scaledBase kind).val ≤ ((p.withSpeed v).scaledBase kind).val := by
  have hfactor := Speed.factor_anti h
  have hscaled : (p.base kind).val * min w.factor 18446744073709551615
      ≤ (p.base kind).val * min v.factor 18446744073709551615 :=
    Nat.mul_le_mul_left _ (by omega)
  have hbase : ∀ u, (p.withSpeed u).base kind = p.base kind := fun _ => by cases kind <;> rfl
  simp only [scaledBase, hbase, Capped.val_clamp, Capped.val_mul]
  simp only [withSpeed]
  omega

theorem heightDelay_mono (p : Pacing) {height tall : Count} (h : height ≤ tall) :
    (p.heightDelay height).val ≤ (p.heightDelay tall).val := by
  rw [Capped.le_def] at h
  have hmul : min height.val 18446744073709551615 * min p.perLevel.val 18446744073709551615
      ≤ min tall.val 18446744073709551615 * min p.perLevel.val 18446744073709551615 :=
    Nat.mul_le_mul_right _ (by omega)
  simp only [heightDelay, Capped.val_mul, Capped.val_recap]
  omega

/-- A cell that is no higher, at a speed that is no lower, waits longer by its jitter at most. -/
theorem delay_le_delay_add (p : Pacing) (kind : Provenance) {v w : Speed} (hspeed : v ≤ w)
    {height tall : Count} (hheight : height ≤ tall) (jitter other : Tick) :
    ((p.withSpeed w).delay kind height jitter).val
      ≤ ((p.withSpeed v).delay kind tall other).val + jitter.val := by
  have hbase := p.scaledBase_anti kind hspeed
  have hlevel : ((p.withSpeed w).heightDelay height).val ≤ ((p.withSpeed v).heightDelay tall).val :=
    p.heightDelay_mono hheight
  have hmin : (p.withSpeed w).minDelay = (p.withSpeed v).minDelay := rfl
  rw [val_delay, val_delay, hmin]
  simp only [Capped.val_add]
  omega

end Pacing

/-- A least delay below one tick counts as one. -/
theorem Regeneration.val_minDelay (r : Regeneration) :
    r.pacing.minDelay.val = max 1 r.minDelay.val := by
  show (if r.minDelay.val = 0 then (1 : Count) else r.minDelay).val = _
  split_ifs with hzero
  · rw [hzero]
    rfl
  · omega

/-- The longest that a cell of at most the given height may wait under the settings. -/
def Regeneration.longestDelay (r : Regeneration) (tallest : Nat) : Nat :=
  max (max 1 r.minDelay.val)
    (max r.naturalBase.val r.placedBase.val + tallest * r.perLevel.val + r.maxJitter.val)

/-- The time from one release to the next while layers wait. -/
def Regeneration.gap (r : Regeneration) : Nat := max 1 r.layerInterval.val

theorem Regeneration.pred_mul_gap_add (r : Regeneration) {n : Nat} (h : 0 < n) :
    (n - 1) * r.gap + r.gap = n * r.gap := by
  rw [← Nat.succ_mul, Nat.succ_eq_add_one, Nat.sub_add_cancel h]

/-- Whatever the speed, no delay under the settings is longer than the longest. -/
theorem Regeneration.delay_le_longestDelay (r : Regeneration) (speed : Speed) (kind : Provenance)
    {height : Count} {jitter : Tick} {tallest : Nat} (hheight : height.val ≤ tallest)
    (hjitter : jitter.val ≤ r.maxJitter.val) :
    ((r.pacing.withSpeed speed).delay kind height jitter).val ≤ r.longestDelay tallest := by
  have hdelay := (r.pacing.withSpeed speed).delay_le kind hheight hjitter
  have hmin : (r.pacing.withSpeed speed).minDelay.val ≤ max 1 r.minDelay.val :=
    Nat.le_of_eq r.val_minDelay
  refine Nat.le_trans hdelay (Nat.max_le.2 ⟨Nat.le_trans hmin (Nat.le_max_left _ _), ?_⟩)
  exact Nat.le_max_right _ _

end Mend
