import Mend.Journal
import Mend.Proofs.Scheduler.Completion

set_option autoImplicit false

/-! # The hazard that a completion reports

A completion names a hazard radius and the cube that goes with it. The radius is the intensity
times the multiplier of the settings, up to the largest count. The cube is built from coordinates
that stop at the ends of the world, and still it holds exactly the positions within a distance
(`Box.contains_around_iff`), wherever its center is; but that distance is cut off at 2³¹ − 1. So
the cube is that of the radius exactly if the radius is no larger (`Box.around_exact_iff`): a
larger radius reaches some position of the world that the cube leaves out, whatever the center.
Every completion that a listener is told of is of this kind (`hazard_of_completion`). -/

namespace Mend

/-- The positions differ by at most `r` in each coordinate. -/
def Pos.Within (p center : Pos) (r : Nat) : Prop :=
  (p.x.val - center.x.val).natAbs ≤ r ∧ (p.y.val - center.y.val).natAbs ≤ r ∧
    (p.z.val - center.z.val).natAbs ≤ r

instance (p center : Pos) (r : Nat) : Decidable (p.Within center r) :=
  inferInstanceAs (Decidable (_ ∧ _))

/-! ## Cubes -/

/-- A coordinate lies between the ends of an interval that stops at the ends of the world exactly
    if it is no further from the middle than asked. -/
theorem Coord.between_clamp_iff {c e : Coord} {r : Nat} :
    clamp (c.val + -(r : Int)) ≤ e ∧ e ≤ clamp (c.val + r) ↔ (e.val - c.val).natAbs ≤ r := by
  have hc := And.intro c.least_le c.le_greatest
  have he := And.intro e.least_le e.le_greatest
  simp only [le_def, val_clamp]
  omega

/-- From every coordinate half of the world can be crossed in one of the two directions. -/
theorem Coord.exists_half_away (c : Coord) :
    ∃ e : Coord, (e.val - c.val).natAbs = 2147483648 := by
  have hleast := c.least_le
  have hgreatest := c.le_greatest
  by_cases hsign : 0 ≤ c.val
  · exact ⟨⟨c.val - 2147483648, by omega, by omega⟩, by simp only; omega⟩
  · exact ⟨⟨c.val + 2147483648, by omega, by omega⟩, by simp only; omega⟩

namespace Box

variable {center : Pos} {radius : Count}

/-- A cube holds the positions within its radius, up to a radius of 2³¹ − 1. -/
theorem contains_around_iff {p : Pos} :
    (around center radius).contains p = true ↔ p.Within center (min radius.val 2147483647) := by
  have hreach : min (radius.val : Int) Coord.greatest
      = ((min radius.val 2147483647 : Nat) : Int) := by
    rw [Coord.greatest]
    omega
  rw [contains_iff, around, hreach]
  exact and_congr Coord.between_clamp_iff (and_congr Coord.between_clamp_iff
    Coord.between_clamp_iff)

/-- A cube is that of its radius exactly if the radius is at most 2³¹ − 1. -/
theorem around_exact_iff :
    (∀ p, (around center radius).contains p = true ↔ p.Within center radius.val) ↔
      radius.val ≤ 2147483647 := by
  constructor
  · intro hexact
    by_contra hlarge
    -- a position half of the world away along the first coordinate is missing
    obtain ⟨e, haway⟩ := center.x.exists_half_away
    have hwithin : (⟨e, center.y, center.z⟩ : Pos).Within center radius.val := by
      refine ⟨?_, ?_, ?_⟩
      · show (e.val - center.x.val).natAbs ≤ radius.val
        omega
      · simp
      · simp
    have hinside := contains_around_iff.1 ((hexact _).2 hwithin)
    have hnear : (e.val - center.x.val).natAbs ≤ min radius.val 2147483647 := hinside.1
    omega
  · intro hsmall p
    rw [contains_around_iff, Nat.min_eq_left hsmall]

end Box

/-! ## Completions -/

/-- What a completion says of the hazard, where the settings have the given radius for each unit
    of intensity. -/
structure Completion.Marks (c : Completion) (perUnit : Count) : Prop where
  radius : c.radius.val = min (c.intensity.val * perUnit.val) 4294967295
  contains_iff : ∀ p, c.hazard.contains p = true ↔ p.Within c.origin (min c.radius.val 2147483647)
  exact_iff : (∀ p, c.hazard.contains p = true ↔ p.Within c.origin c.radius.val) ↔
    c.radius.val ≤ 2147483647

theorem Scheduler.marks_completion (s : Scheduler) (r : Record) :
    (s.completion r).Marks s.radiusPerIntensity where
  radius := rfl
  contains_iff _ := Box.contains_around_iff
  exact_iff := Box.around_exact_iff

/-- The multiplier never changes, and each firing that completes some damage marks the hazard
    by it. -/
theorem kept_marks (perUnit : Count) : Kept (fun _ _ => True) (fun _ xs _ s =>
    s.radiusPerIntensity = perUnit ∧ ∀ c ∈ completionsOf xs, c.Marks perUnit) where
  accept {is xs live s} h p _ := by
    obtain ⟨_, _, _, _, heq⟩ := s.accept_eq p.id p.damage
    rw [heq]
    exact h
  settle {is xs t live s} h o := by
    refine ⟨h.1, ?_⟩
    intro c hc
    rw [completionsOf_concat, List.mem_append] at hc
    rcases hc with hbefore | hnow
    · exact h.2 c hbefore
    · have hclosed : (s.ledger.resolve t.damage o).1.map s.completion = some c :=
        Option.mem_toList.1 hnow
      obtain ⟨r, -, rfl⟩ := Option.map_eq_some_iff.1 hclosed
      exact h.1 ▸ s.marks_completion r
  perm h _ := h
  frame h _ _ hradius := ⟨hradius.trans h.1, h.2⟩

section Reachable

variable {settings : Regeneration} {seed : Tick} {s : Scheduler}

theorem Scheduler.radiusPerIntensity_new (fresh : Scheduler.new settings seed = .ok s) :
    s.radiusPerIntensity = settings.radiusPerIntensity := by
  unfold Scheduler.new at fresh
  split at fresh
  · cases fresh
  · cases fresh
    rfl

/-- **The hazard of a completion.** On every tick of a run the listener is told of the completions in
    the report, in their order. Each has as its radius the intensity times the multiplier of the
    settings, up to the largest count, and its cube holds exactly the positions within that radius
    of the origin, the radius being cut off at 2³¹ − 1. So the cube is that of the radius exactly if
    the radius is no larger. -/
theorem hazard_of_completion (fresh : Scheduler.new settings seed = .ok s) (deeds : List Deed)
    {ω η : Type} [Ground ω] [Listener η] (world : ω) (listener : η)
    {t : Scheduler.Ticked ω η} (ticked : (s.run deeds).tick world listener = .ok t) :
    t.listener = Listener.hear listener t.report.completions ∧
      ∀ c ∈ t.report.completions, c.Marks settings.radiusPerIntensity := by
  obtain ⟨clock, -, htells⟩ := Scheduler.tick_tells ticked
  obtain ⟨hreported, hheard⟩ := htells.reported
  refine ⟨hheard, ?_⟩
  intro c hc
  have hmarks := ((kept_marks settings.radiusPerIntensity).run fresh
    ⟨Scheduler.radiusPerIntensity_new fresh, by simp [completionsOf]⟩
    (deeds ++ [.tick world listener]) (by simp)).2
  apply hmarks c
  rw [hreported] at hc
  rw [Scheduler.fired, Scheduler.gather_concat, completionsOf, List.filterMap_append]
  exact List.mem_append_right _ hc

end Reachable

/-- Settings under which the hazard radius is the intensity, and a lowest cell waits for one tick. -/
def plainHazard : Regeneration :=
  { Regeneration.default with
    speed := 10, maxJitter := 0, layerInterval := 0, radiusPerIntensity := 1 }

/-- Damage of one cell with an intensity of 2³¹ is submitted, and its cell is put on the agenda. -/
def farReaching : List Deed :=
  [.submit ⟨DamageId.ofNat 1, { (quarried 1 [(0, 0)]).damage with intensity := 2147483648 }⟩,
    .tick (Atlas.empty []) ()]

/-- The completion of far-reaching damage has a radius of 2³¹ and the cube of a smaller one. -/
theorem hazard_of_completion_far_reaching : ∃ s t,
    Scheduler.new plainHazard 7 = .ok s ∧
      (s.run farReaching).tick (Atlas.empty []) Journal.empty = .ok t ∧
      (t.listener = Listener.hear Journal.empty t.report.completions ∧
        ∀ c ∈ t.report.completions, c.Marks plainHazard.radiusPerIntensity) ∧
      t.report.completions.map (fun c => (c.radius.val, c.hazard))
        = [(2147483648, ⟨Pos.clamp (-2147483647) (-2147483647) (-2147483647),
          Pos.clamp 2147483647 2147483647 2147483647⟩)] :=
  ⟨_, _, rfl, rfl, @hazard_of_completion plainHazard 7 _ rfl farReaching Atlas Journal _ _
    (Atlas.empty []) Journal.empty _ rfl, by decide +kernel⟩

/-- A cube can leave out a position within the reported radius: that of far-reaching damage at the
    middle of the world leaves out one at the end of it. -/
theorem hazard_misses_end : ¬ ∀ (settings : Regeneration) (seed : Tick) (s : Scheduler),
    Scheduler.new settings seed = .ok s → ∀ (deeds : List Deed) (world : Atlas)
      (listener : Journal) (t : Scheduler.Ticked Atlas Journal),
      (s.run deeds).tick world listener = .ok t → ∀ c ∈ t.report.completions, ∀ p : Pos,
        c.hazard.contains p = true ↔ p.Within c.origin c.radius.val := by
  intro h
  have hexact := h plainHazard 7 _ rfl farReaching (Atlas.empty []) Journal.empty _ rfl
  have hmissed : ∃ t, ((Scheduler.new plainHazard 7).toOption.map fun s =>
      (s.run farReaching).tick (Atlas.empty []) Journal.empty) = some (.ok t) ∧
      ∃ c ∈ t.report.completions, c.hazard.contains (Pos.clamp (-2147483648) 0 0) = false ∧
        (Pos.clamp (-2147483648) 0 0).Within c.origin c.radius.val :=
    ⟨_, rfl, by decide +kernel⟩
  obtain ⟨t, ht, c, hc, hout, hin⟩ := hmissed
  cases ht
  rw [(hexact c hc _).2 hin] at hout
  cases hout

end Mend
