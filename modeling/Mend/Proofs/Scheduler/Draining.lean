import Mend.Proofs.Pacing
import Mend.Proofs.Scheduler.Pace
import Mend.Proofs.Scheduler.Punctual

set_option autoImplicit false

/-! # How long a scheduler takes to fire all it holds

If nothing is handed in any more, the waiting layers are released one after the other at the pace of
the drain, and every task fires at most the longest delay after its release. So the layers that wait
and the deadlines on the agenda say by which tick everything has fired, and neither the speed nor
the ground nor the listener can put this off: each deed keeps the bound (`Scheduler.DrainsBy`), and
once the clock has reached it nothing is left (`Scheduler.isIdle_of_drainsBy`). -/

namespace Mend

/-- Whether the deed is a tick. -/
def Deed.isTick : Deed → Bool
  | @Deed.tick _ _ _ _ _ _ => true
  | .submit _ | .send _ | .setSpeed _ => false

/-- The number of ticks among some deeds. -/
def ticksIn (deeds : List Deed) : Nat := deeds.countP Deed.isTick

theorem ticksIn_append (deeds more : List Deed) :
    ticksIn (deeds ++ more) = ticksIn deeds + ticksIn more :=
  List.countP_append

theorem ticksIn_cons (d : Deed) (rest : List Deed) :
    ticksIn (d :: rest) = ticksIn rest + if d.isTick then 1 else 0 :=
  List.countP_cons

theorem le_foldr_max {xs : List Nat} {a n : Nat} (h : n ≤ a ∨ n ∈ xs) : n ≤ xs.foldr max a := by
  induction xs with
  | nil => exact h.resolve_right List.not_mem_nil
  | cons x rest ih =>
      rw [List.foldr_cons]
      rcases h with h | h
      · exact Nat.le_trans (ih (Or.inl h)) (Nat.le_max_right _ _)
      · rcases List.mem_cons.1 h with rfl | h
        · exact Nat.le_max_left _ _
        · exact Nat.le_trans (ih (Or.inr h)) (Nat.le_max_right _ _)

namespace Scheduler

/-- The greatest height of a task in the layers. -/
def tallest (s : Scheduler) : Nat := (s.layers.tasks.map (·.height.val)).foldr max 0

/-- The last deadline on the agenda, or the present tick if there is none. -/
def lastDeadline (s : Scheduler) : Nat :=
  (s.agenda.entries.map (·.1.val)).foldr max s.clock.now.val

/-- How many ticks a scheduler may take to fire all it holds. -/
def drainTime (s : Scheduler) (r : Regeneration) : Nat :=
  max (s.lastDeadline - s.clock.now.val) (s.layers.size * r.gap + r.longestDelay s.tallest)

/-- All that the scheduler holds fires by tick `last`, if nothing is handed in any more: the
    deadlines on the agenda say so, and so do the waiting layers, the first of which may be released
    on tick `n`. -/
structure DrainsBy (r : Regeneration) (tallest last n : Nat) (s : Scheduler) : Prop where
  funnel : s.funnel.waiting = []
  pacing : s.pacing = r.pacing.withSpeed s.speed
  interval : s.drain.interval.val = r.layerInterval.val
  heights : ∀ t ∈ s.layers.tasks, t.height.val ≤ tallest
  releases : s.layers.layers ≠ [] → ∃ next, s.drain.phase = .draining next ∧
    max n next.val + (s.layers.size - 1) * r.gap + r.longestDelay tallest ≤ last
  deadlines : ∀ e ∈ s.agenda.entries, e.1.val ≤ last

/-! ## The ticks of a run -/

/-- Every tick moves the clock, up to the last tick there is; nothing else does. -/
theorem now_after (s : Scheduler) (d : Deed) : (s.after d).clock.now.val
    = min (s.clock.now.val + if d.isTick then 1 else 0) 18446744073709551615 := by
  have hmax := s.clock.now.le_max
  cases d with
  | submit p =>
      show (s.accept p.id p.damage).2.clock.now.val = _
      rw [accept_clock]
      exact (Nat.min_eq_left hmax).symm
  | send p =>
      obtain ⟨funnel, hafter⟩ := s.after_send p
      rw [hafter]
      exact (Nat.min_eq_left hmax).symm
  | setSpeed speed => exact (Nat.min_eq_left hmax).symm
  | tick world listener =>
      show _ = min (s.clock.now.val + 1) _
      cases hclock : s.clock.advance with
      | error e =>
          have hlast := Clock.now_of_advance_error hclock
          rw [(tick_error hclock world listener).1]
          omega
      | ok clock =>
          have hnow := Clock.now_of_advance hclock
          have hle := clock.now.le_max
          rw [(ticks_of_advance hclock world listener).clock_eq]
          omega

/-- The clock counts the ticks of a run, up to the last tick there is. -/
theorem clock_run (s : Scheduler) (deeds : List Deed) : (s.run deeds).clock.now.val
    = min (s.clock.now.val + ticksIn deeds) 18446744073709551615 := by
  induction deeds generalizing s with
  | nil => exact (Nat.min_eq_left s.clock.now.le_max).symm
  | cons d rest ih =>
      show ((s.after d).run rest).clock.now.val = _
      rw [ih (s.after d), now_after, ticksIn_cons]
      omega

namespace DrainsBy

variable {r : Regeneration} {tallest last n : Nat} {s : Scheduler}

/-- The delay of a released task is no longer than the longest. -/
theorem delay_le (h : s.DrainsBy r tallest last n) {a : Appointment}
    (hfollows : a.Follows s.clock.now s.pacing) (hheight : a.task.height.val ≤ tallest) :
    a.delay.val ≤ r.longestDelay tallest := by
  obtain ⟨random, hjitter⟩ := hfollows.drawn
  have hdrawn := random.draw_le s.pacing.maxJitter.val
  rw [hfollows.delay_eq, h.pacing]
  refine r.delay_le_longestDelay s.speed a.task.provenance hheight ?_
  rw [hjitter, Capped.val_clamp]
  rw [h.pacing] at hdrawn ⊢
  exact Nat.le_trans (Nat.min_le_left _ _) hdrawn

theorem of_later {agenda : Agenda Task} {now : Tick} (h : ∀ e ∈ agenda.entries, e.1.val ≤ last) :
    ∀ e ∈ (agenda.later now).entries, e.1.val ≤ last :=
  fun e he => h e ((List.dropWhile_sublist _).subset he)

/-- The bound is kept if no layer is released and none that waits is released too late. -/
theorem release_none (h : s.DrainsBy r tallest last n) {drain : Drain}
    (hpoll : s.drain.poll s.clock.now s.layers = (none, drain, s.layers))
    (hinterval : drain.interval = s.drain.interval)
    (hreleases : s.layers.layers ≠ [] → ∃ next, drain.phase = .draining next ∧
      max (n + 1) next.val + (s.layers.size - 1) * r.gap + r.longestDelay tallest ≤ last) :
    s.release.2.poised.DrainsBy r tallest last (n + 1) := by
  obtain ⟨hrelease, -⟩ := turn_of_poll_none hpoll
  rw [hrelease]
  exact ⟨h.funnel, h.pacing, (congrArg Capped.val hinterval).trans h.interval, h.heights,
    hreleases, of_later h.deadlines⟩

/-- The bound is kept if the lowest layer is released: one layer less waits for one interval more,
    and the tasks of the layer fire at most the longest delay from now. -/
theorem release_some (h : s.DrainsBy r tallest last n) (hnow : s.clock.now.val = n) {layer : Layer}
    {rest : List Layer} (hq : s.layers.layers = layer :: rest)
    (hlast : n + rest.length * r.gap + r.longestDelay tallest ≤ last)
    (hpoll : s.drain.poll s.clock.now s.layers = (some layer,
      { s.drain with phase := .draining (s.clock.now + s.drain.interval) }, ⟨rest⟩)) :
    s.release.2.poised.DrainsBy r tallest last (n + 1) := by
  obtain ⟨random, as, hrelease, -, htasks, hfollows⟩ := turn_of_poll_some hpoll
  have hsplit : s.layers.tasks = layer.tasks ++ rest.flatMap Layer.tasks := by
    rw [LayerQueue.tasks, hq, List.flatMap_cons]
  have hheights := h.heights
  rw [hsplit] at hheights
  rw [hrelease]
  refine ⟨h.funnel, h.pacing, h.interval,
    fun t ht => hheights t (List.mem_append_right _ ht), fun hne => ?_, of_later fun e he => ?_⟩
  · refine ⟨s.clock.now + s.drain.interval, rfl, ?_⟩
    have hgap := r.pred_mul_gap_add (n := rest.length) (List.length_pos_iff.2 hne)
    have hinterval := h.interval
    show max (n + 1) (min (s.clock.now.val + s.drain.interval.val) _)
      + (rest.length - 1) * r.gap + _ ≤ last
    rw [Regeneration.gap] at hgap hlast ⊢
    omega
  · rcases Agenda.mem_entries_plan.1 he with he | ⟨a, ha, rfl⟩
    · exact h.deadlines e he
    · have hmem : a.task ∈ layer.tasks := htasks ▸ List.mem_map_of_mem ha
      have hdelay := h.delay_le (hfollows a ha) (hheights _ (List.mem_append_left _ hmem))
      have hmade : a.made.val = n := by rw [(hfollows a ha).made_eq, hnow]
      show a.deadline.val ≤ last
      rw [a.val_deadline]
      omega

/-- Releasing a layer and taking what is due off the agenda keeps the bound. -/
theorem release (h : s.DrainsBy r tallest last n) (hnow : s.clock.now.val = n) :
    s.release.2.poised.DrainsBy r tallest last (n + 1) := by
  rcases s.drain.poll_cases s.clock.now s.layers with
    ⟨hidle, hpoll⟩ | ⟨next, hphase, hlt, hpoll⟩ | ⟨next, -, -, hnil, hpoll⟩ |
    ⟨next, layer, rest, hphase, hle, hq, hpoll⟩
  · refine h.release_none hpoll rfl fun hne => ?_
    obtain ⟨next, hphase, -⟩ := h.releases hne
    rw [hidle] at hphase
    cases hphase
  · refine h.release_none hpoll rfl fun hne => ?_
    obtain ⟨next', hphase', hbound⟩ := h.releases hne
    obtain rfl : next = next' := Drain.Phase.draining.inj (hphase.symm.trans hphase')
    rw [Capped.lt_def, hnow] at hlt
    exact ⟨next, hphase, by omega⟩
  · exact h.release_none hpoll rfl fun hne => absurd hnil hne
  · obtain ⟨next', hphase', hbound⟩ := h.releases (by simp [hq])
    obtain rfl : next = next' := Drain.Phase.draining.inj (hphase.symm.trans hphase')
    rw [Capped.le_def, hnow] at hle
    rw [LayerQueue.size, hq, List.length_cons, Nat.add_sub_cancel] at hbound
    exact h.release_some hnow hq (by omega) hpoll

/-- What hands nothing in keeps the bound. -/
theorem after (h : s.DrainsBy r tallest last (s.clock.now.val + 1)) {d : Deed}
    (hd : d.parcel? = none) :
    (s.after d).DrainsBy r tallest last ((s.after d).clock.now.val + 1) := by
  cases d with
  | submit p => cases hd
  | send p => cases hd
  | setSpeed speed =>
      exact ⟨h.funnel, by rw [Scheduler.after, withSpeed, h.pacing]; rfl, h.interval, h.heights,
        h.releases, h.deadlines⟩
  | tick world listener =>
      cases hclock : s.clock.advance with
      | error e => rwa [(tick_error hclock world listener).1]
      | ok clock =>
          have hreceived : s.received clock = s.atIntake clock := by
            rw [received, h.funnel]
            rfl
          have hintake : (s.received clock).DrainsBy r tallest last (s.clock.now.val + 1) := by
            rw [hreceived]
            exact ⟨rfl, h.pacing, h.interval, h.heights, h.releases, h.deadlines⟩
          have hrelease := hintake.release (by rw [received_clock, Clock.now_of_advance hclock])
          rw [(ticks_of_advance hclock world listener).clock_eq, Clock.now_of_advance hclock,
            after_tick hclock, settleAll_eq]
          exact ⟨hrelease.funnel, hrelease.pacing, hrelease.interval, hrelease.heights,
            hrelease.releases, hrelease.deadlines⟩

theorem run (h : s.DrainsBy r tallest last (s.clock.now.val + 1)) {deeds : List Deed}
    (hdeeds : handedIn deeds = []) :
    (s.run deeds).DrainsBy r tallest last ((s.run deeds).clock.now.val + 1) := by
  induction deeds generalizing s with
  | nil => exact h
  | cons d rest ih =>
      have hall := List.filterMap_eq_nil_iff.1 hdeeds
      rw [List.forall_mem_cons] at hall
      exact ih (h.after hall.1) (List.filterMap_eq_nil_iff.2 hall.2)

/-- Once the clock has reached the bound, no layer waits and nothing later is on the agenda. -/
theorem empty_of_le (h : s.DrainsBy r tallest last (s.clock.now.val + 1))
    (hlast : last ≤ s.clock.now.val) (hahead : ∀ e ∈ s.agenda.entries, s.clock.now.val < e.1.val) :
    s.layers.layers = [] ∧ s.agenda.entries = [] := by
  constructor
  · by_contra hne
    obtain ⟨next, -, hbound⟩ := h.releases hne
    omega
  · refine List.eq_nil_iff_forall_not_mem.2 fun e he => ?_
    have hdeadline := h.deadlines e he
    have hafter := hahead e he
    omega

end DrainsBy

/-! ## Reachable states -/

section Reachable

variable {settings : Regeneration} {seed : Tick} {s : Scheduler}

theorem le_lastDeadline (s : Scheduler) :
    s.clock.now.val ≤ s.lastDeadline ∧ ∀ e ∈ s.agenda.entries, e.1.val ≤ s.lastDeadline :=
  ⟨le_foldr_max (Or.inl (Nat.le_refl _)),
    fun _ he => le_foldr_max (Or.inr (List.mem_map_of_mem he))⟩

/-- In every reachable state with an empty funnel, the deadlines on the agenda and the layers that
    wait give a bound. -/
theorem drainsBy_run (fresh : Scheduler.new settings seed = .ok s) (deeds : List Deed)
    (hempty : (s.run deeds).funnel.isEmpty = true) {last : Nat}
    (hdeadlines : (s.run deeds).lastDeadline ≤ last)
    (hlayers : (s.run deeds).layers.layers ≠ [] →
      (s.run deeds).clock.now.val + (s.run deeds).layers.size * settings.gap
        + settings.longestDelay (s.run deeds).tallest ≤ last) :
    (s.run deeds).DrainsBy settings (s.run deeds).tallest last
      ((s.run deeds).clock.now.val + 1) := by
  have hbound : 0 + settings.layerInterval.val < 18446744073709551616 := by
    have := settings.layerInterval.le_max
    omega
  have hpaced := (flow_paced hbound).run fresh (paced_start fresh 0) deeds
  refine ⟨List.isEmpty_iff.1 hempty, pacing_run fresh deeds, hpaced.interval_eq,
    fun t ht => le_foldr_max (Or.inr (List.mem_map_of_mem ht)), fun hne => ?_,
    fun e he => Nat.le_trans ((le_lastDeadline _).2 e he) hdeadlines⟩
  cases hphase : (s.run deeds).drain.phase with
  | idle => exact absurd (hpaced.idle hphase) hne
  | draining next =>
      have hsoon := hpaced.soon next hphase
      have hlast := hlayers hne
      have hgap := settings.pred_mul_gap_add (n := (s.run deeds).layers.size)
        (List.length_pos_iff.2 hne)
      refine ⟨next, rfl, ?_⟩
      rw [Regeneration.gap] at hgap hlast ⊢
      omega

/-- Once the clock has reached the bound, nothing is left to do. -/
theorem isIdle_of_drainsBy (fresh : Scheduler.new settings seed = .ok s) {deeds more : List Deed}
    (distinct : ((handedIn deeds).map Parcel.id).Nodup)
    (small : ∀ p ∈ handedIn deeds, p.damage.cells.length < 4294967296)
    (hmore : handedIn more = []) {tallest last : Nat}
    (h : (s.run deeds).DrainsBy settings tallest last ((s.run deeds).clock.now.val + 1))
    (hlast : last ≤ 18446744073709551615)
    (hticks : last ≤ (s.run deeds).clock.now.val + ticksIn more) :
    (s.run (deeds ++ more)).isIdle = true := by
  have hhanded : handedIn (deeds ++ more) = handedIn deeds := by
    rw [handedIn_append, hmore, List.append_nil]
  rw [← hhanded] at distinct small
  have hclock := (s.run deeds).clock_run more
  have hdrains := h.run hmore
  rw [← run_append] at hclock hdrains
  obtain ⟨hlayers, hagenda⟩ := hdrains.empty_of_le (by omega)
    fun e he => (planned_run fresh (deeds ++ more)).future e he
  rw [isIdle_iff (holds_run fresh _) (filled_of_new fresh _) (counts_run fresh distinct small)]
  refine ⟨List.isEmpty_iff.2 hdrains.funnel, ?_⟩
  rw [Pending.isEmpty, beq_iff_eq, size_pending fresh, LayerQueue.taskCount, LayerQueue.tasks,
    hlayers, Agenda.size, hagenda]
  rfl

end Reachable

end Scheduler

end Mend
