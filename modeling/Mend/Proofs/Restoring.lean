import Mend.Proofs.Atlas.Firing
import Mend.Proofs.Scheduler.Punctual

set_option autoImplicit false

/-! # What a tick does to an atlas

The tasks that fire on a tick are those that were on the agenda for it when the tick began: what
the tick itself puts on the agenda is for later. No two tasks underway have the same cell, so
each of them meets the atlas as it was before the tick, and the tick does to the atlas what these
tasks do to their cells, each for itself (`restores_tick`). -/

namespace Mend

namespace Scheduler

variable {settings : Regeneration} {seed : Tick} {s : Scheduler}

/-- Up to the last tick but one, a tick fires what was on the agenda for it when it began. -/
theorem dueTasks_prepared (fresh : Scheduler.new settings seed = .ok s) (deeds : List Deed)
    {clock : Clock} (hclock : (s.run deeds).clock.advance = .ok clock)
    (hlast : clock.now.val < 18446744073709551615) :
    ((s.run deeds).prepared clock).dueTasks = (s.run deeds).agenda.itemsAt clock.now := by
  have hplanned := planned_run fresh deeds
  rw [← Clock.now_of_advance hclock] at hplanned
  -- what is released now is for a later tick
  have hlater : ∀ a ∈ ((s.run deeds).received clock).turn.appointments,
      clock.now < a.deadline := by
    intro a ha
    have hfollows := ((s.run deeds).received clock).follows_turn ha
    rw [received_pacing, pacing_run fresh] at hfollows
    have hmade : a.made = clock.now :=
      hfollows.made_eq.trans (congrArg Clock.now ((s.run deeds).received_clock clock))
    have hdelay := hfollows.max_one_minDelay_le
    rw [Capped.lt_def, a.val_deadline, hmade]
    omega
  have hnone : ((s.run deeds).received clock).turn.appointments.filter (·.deadline = clock.now)
      = [] := by
    refine List.filter_eq_nil_iff.2 fun a ha heq => ?_
    have hlt := Capped.lt_def.1 (hlater a ha)
    rw [of_decide_eq_true heq] at hlt
    exact Nat.lt_irrefl _ hlt
  have hdue := (hplanned.plan fun a ha => Capped.le_of_lt (hlater a ha)).due_eq
  rw [dueTasks, prepared_agenda, prepared_clock, hdue, List.filter_append, hnone, List.append_nil,
    hplanned.waiting clock.now (Nat.le_refl _)]

/-- When a tick comes to its firing, the cells pending are those of the tasks that are due and of
    those that are not, and when it is over they are those of the latter. -/
theorem holds_prepared (fresh : Scheduler.new settings seed = .ok s) (deeds : List Deed)
    (clock : Clock) {ω : Type} [Ground ω] (world : ω) :
    (((s.run deeds).prepared clock).dueTasks.map Task.cell).Nodup ∧
      (((s.run deeds).prepared clock).poised.settleAll
        (((s.run deeds).prepared clock).dueShots world)).pending.Holds
          (((s.run deeds).prepared clock).poised.liveTasks.map Task.cell) ∧
      ∀ t ∈ ((s.run deeds).prepared clock).dueTasks,
        t.cell ∉ ((s.run deeds).prepared clock).poised.liveTasks.map Task.cell := by
  have hprepared := holds_poised (holds_run fresh deeds) clock
  have hfired := @Kept.shots _ _ [] [] _ ω _ kept_pending world _ _ hprepared
  have hnodup := hprepared.nodup
  rw [List.map_append, List.nodup_append] at hnodup
  exact ⟨hnodup.1, hfired, fun t ht hmem =>
    hnodup.2.2 t.cell (List.mem_map_of_mem ht) t.cell hmem rfl⟩

end Scheduler

/-! ## Every tick -/

/-- What a tick of the scheduler `s` that runs on the atlas `world` and leaves `r` does to the
    cells. The tasks that were due are those that the agenda of `s` has for the tick. -/
structure Scheduler.Restores {η : Type} [Listener η] (s : Scheduler) (world : Atlas)
    (listener : η) (r : Ticked Atlas η) : Prop where
  /-- The tasks that were due fire, and each comes out as the atlas before the tick decides. -/
  fires : (s.firedOn (.tick world listener)).map (fun x => (x.task, x.outcome))
    = (s.agenda.itemsAt r.report.tick).map fun t => (t, world.outcomeOf t)
  /-- The report counts, up to the cap of a count, how many came out in each way. -/
  counts : ∀ o, (r.report.tally.count o).val
    = min ((s.agenda.itemsAt r.report.tick).countP (world.outcomeOf · = o)) 4294967295
  /-- Where the task is not restored, its cell is left alone; where it is, the cell reads as the
      task says. -/
  leaves : ∀ t ∈ s.agenda.itemsAt r.report.tick,
    r.world.contentAt? t.world t.pos = world.contentAfter t
  /-- What changes is a pending cell for which a task was due and on which nothing stood. It then
      reads as the task says, and is not pending any more. -/
  changed : ∀ name pos, r.world.contentAt? name pos ≠ world.contentAt? name pos →
    s.isPending name pos = true ∧ r.scheduler.isPending name pos = false ∧
      ∃ t, (r.report.tick, t) ∈ s.agenda.entries ∧ t.cell = (name, pos) ∧
        world.isVacantMaterial (world.materialAt name pos) = true ∧
        r.world.contentAt? name pos = t.restored

section Reachable

variable {settings : Regeneration} {seed : Tick} {s : Scheduler}

/-- **A tick overwrites nothing and touches nothing else.** A tick on any atlas leaves the worlds,
    what counts as built in them, what is loaded of them, and the rules as they are. Up to the last
    tick but one, the cells that it changes are vacant cells for which a task was due, and each
    reads afterwards as that task says; a due task whose cell is not vacant is skipped, one that
    cannot be restored fails, and both leave their cell alone. -/
theorem restores_tick (fresh : Scheduler.new settings seed = .ok s) (deeds : List Deed) {η : Type}
    [Listener η] {world : Atlas} {listener : η} {r : Scheduler.Ticked Atlas η}
    (h : (s.run deeds).tick world listener = .ok r) :
    world.SameRules r.world ∧ (r.report.tick.val < 18446744073709551615 →
      (s.run deeds).Restores world listener r) := by
  obtain ⟨clock, hclock, htick, htally, -, hscheduler, hworld, -⟩ := Scheduler.tick_eq_ok h
  obtain ⟨hdistinct, hpending, hsettled⟩ := Scheduler.holds_prepared fresh deeds clock world
  replace hworld : r.world = world.fireAll ((s.run deeds).prepared clock).dueTasks := hworld
  refine ⟨hworld ▸ world.sameRules_fireAll _, fun hlast => ?_⟩
  have hdue := Scheduler.dueTasks_prepared fresh deeds hclock (htick ▸ hlast)
  have hshots : (((s.run deeds).prepared clock).dueShots world).map (fun x => (x.task, x.outcome))
      = ((s.run deeds).agenda.itemsAt clock.now).map fun t => (t, world.outcomeOf t) :=
    hdue ▸ Atlas.map_shots _ hdistinct
  have houtcomes := congrArg (List.map Prod.snd) hshots
  rw [List.map_map, List.map_map] at houtcomes
  rw [← hscheduler] at hpending
  -- from here on the due tasks are those that the agenda had for the tick before it began
  rw [hdue] at hworld hsettled hdistinct
  rw [← htick] at hshots hworld hsettled hdistinct houtcomes
  refine
    { fires := ?_
      counts := fun o => ?_
      leaves := fun t ht => hworld ▸ Atlas.contentAt?_fireAll_of_mem hdistinct ht
      changed := fun name pos hne => ?_ }
  · rwa [Scheduler.firedOn_tick hclock]
  · have hzero : ((Tally.zero : Tally 4294967295).count o).val = 0 := by cases o <;> rfl
    rw [htally, Tally.val_count_foldl_record, hzero, Nat.zero_add]
    refine congrArg (min · _) ((congrArg (List.count o) houtcomes).trans ?_)
    rw [List.count_eq_countP, List.countP_map]
    rfl
  · rw [hworld] at hne ⊢
    obtain ⟨t, ht, hcell, hvacant, hrestored⟩ :=
      Atlas.restored_of_contentAt?_fireAll_ne hdistinct hne
    obtain ⟨rfl, rfl⟩ := Prod.mk.inj hcell
    have hentry := Agenda.mem_itemsAt.1 ht
    refine ⟨?_, ?_, t, hentry, rfl, hvacant, hrestored⟩
    · refine ((Scheduler.holds_run fresh deeds).contains_iff _ _).2 ?_
      exact List.mem_map_of_mem (List.mem_append_right _ (List.mem_map_of_mem hentry))
    · exact Bool.eq_false_iff.2 fun hp => hsettled t ht ((hpending.contains_iff _ _).1 hp)

/-- Settings under which a layer fires on the tick after its release. -/
def prompt : Regeneration := { Regeneration.default with naturalBase := 0, maxJitter := 0 }

/-- Three places, of which the first is empty, the second built over and the third not loaded. -/
def site : Atlas :=
  let a := (Atlas.empty []).withWorld "quarry"
  let a := (a.place "quarry" (Pos.clamp 1 0 0) (Content.plain "dirt")).2
  (a.unload "quarry" (Box.around (Pos.clamp 2 0 0) 0)).2

/-- Of three tasks due on the same tick one is restored, one is skipped and one fails. -/
theorem restores_tick_site : ∃ s r, Scheduler.new prompt 7 = .ok s ∧
    let deeds : List Deed := [.submit (quarried 1 [(0, 0), (1, 0), (2, 0)]), .tick site ()]
    (s.run deeds).tick site () = .ok r ∧ r.report.tick.val < 18446744073709551615 ∧
      site.SameRules r.world ∧ (s.run deeds).Restores site () r ∧ r.report.tally = ⟨1, 1, 1⟩ ∧
      (r.world.contentAt? "quarry" (Pos.clamp 0 0 0)).map Content.material = some "stone" := by
  obtain ⟨s, hs⟩ : ∃ s, Scheduler.new prompt 7 = .ok s := ⟨_, rfl⟩
  cases hs
  have hrun := @restores_tick prompt 7 _ rfl
    [.submit (quarried 1 [(0, 0), (1, 0), (2, 0)]), .tick site ()] Unit _ site () _ rfl
  have hrestores := hrun.2 (by decide +kernel)
  exact ⟨_, _, rfl, rfl, by decide +kernel, hrun.1, hrestores, by decide +kernel, by decide +kernel⟩

end Reachable

end Mend
