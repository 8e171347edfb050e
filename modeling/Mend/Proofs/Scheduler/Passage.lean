import Mend.Proofs.Scheduler.Punctual

set_option autoImplicit false

/-! # Following one task from its admission to its firing

Damage that is handed in again may bring a task that is equal to one of an earlier damage. A task
is therefore followed from the moment at which its damage is taken in (`Scheduler.Meets`), when no
task underway has its cell: from then on the first appointment made for it is its own, and so is
the first firing (`Scheduler.Resolves`). The induction is on the deeds that follow, from the layers
(`resolves_of_waiting`) through the agenda (`firesFirst_of_entry`). -/

namespace Mend

/-! ## Following one task -/

theorem exists_find?_of_mem_map {α β : Type} [DecidableEq β] {f : α → β} {xs : List α} {y : β}
    (h : y ∈ xs.map f) : ∃ x, xs.find? (fun x => f x = y) = some x := by
  obtain ⟨x, hx, rfl⟩ := List.mem_map.1 h
  exact Option.isSome_iff_exists.1 (List.find?_isSome.2 ⟨x, hx, decide_eq_true rfl⟩)

namespace Scheduler

/-- The first appointment that a run makes for a task. -/
def appointmentOf (s : Scheduler) (deeds : List Deed) (t : Task) : Option Appointment :=
  (s.appointed deeds).find? (·.task = t)

/-- The first firing of a task in a run. -/
def firingOf (s : Scheduler) (deeds : List Deed) (t : Task) : Option Shot :=
  (s.fired deeds).find? (·.task = t)

/-- In a run the task fires for the first time on the given tick if the run gets that far, and else
    not at all. -/
def FiresFirst (s : Scheduler) (deeds : List Deed) (t : Task) (tick : Tick) : Prop :=
  (s.firingOf deeds t).map Shot.tick
    = if tick ≤ (s.run deeds).clock.now then some tick else none

/-- In a run the task does not fire without an appointment, and for the first time on the tick for
    which its first appointment is. -/
structure Resolves (s : Scheduler) (deeds : List Deed) (t : Task) : Prop where
  waits : s.appointmentOf deeds t = none → s.firingOf deeds t = none
  fires : ∀ a, s.appointmentOf deeds t = some a → s.FiresFirst deeds t a.deadline

theorem appointmentOf_cons (s : Scheduler) (d : Deed) (rest : List Deed) (t : Task) :
    s.appointmentOf (d :: rest) t
      = (((s.turnsOn d).flatMap Turn.appointments).find? (·.task = t)).or
          ((s.after d).appointmentOf rest t) := by
  rw [appointmentOf, appointed_cons, List.find?_append]
  rfl

theorem firingOf_cons (s : Scheduler) (d : Deed) (rest : List Deed) (t : Task) :
    s.firingOf (d :: rest) t
      = ((s.firedOn d).find? (·.task = t)).or ((s.after d).firingOf rest t) := by
  rw [firingOf, fired, gather, List.find?_append]
  rfl

theorem FiresFirst.cons {s : Scheduler} {d : Deed} {rest : List Deed} {t : Task} {tick : Tick}
    (h : (s.after d).FiresFirst rest t tick) (hnone : (s.firedOn d).find? (·.task = t) = none) :
    s.FiresFirst (d :: rest) t tick := by
  rw [FiresFirst, firingOf_cons, hnone]
  exact h

/-- A deed on which the task is neither released nor fires. -/
theorem Resolves.cons {s : Scheduler} {d : Deed} {rest : List Deed} {t : Task}
    (h : (s.after d).Resolves rest t)
    (hturns : ((s.turnsOn d).flatMap Turn.appointments).find? (·.task = t) = none)
    (hnone : (s.firedOn d).find? (·.task = t) = none) : s.Resolves (d :: rest) t := by
  have hsame : s.appointmentOf (d :: rest) t = (s.after d).appointmentOf rest t := by
    rw [appointmentOf_cons, hturns, Option.none_or]
  refine ⟨fun hwaits => ?_, fun a ha => (h.fires a (hsame ▸ ha)).cons hnone⟩
  rw [firingOf_cons, hnone, h.waits (hsame ▸ hwaits), Option.none_or]

/-- What is still underway after the firing of a tick does not fire on it. -/
theorem Ticks.find?_firedOn_eq_none {s : Scheduler} {d : Deed} {clock : Clock}
    (h : s.Ticks d clock) (hholds : s.pending.Holds (s.liveTasks.map Task.cell)) {t : Task}
    (ht : t ∈ (s.prepared clock).poised.liveTasks) : (s.firedOn d).find? (·.task = t) = none := by
  obtain ⟨ω, _, world, hfired, -⟩ := h.after_eq
  have hnodup := (holds_poised hholds clock).nodup.of_map
  rw [hfired, List.find?_eq_none]
  intro x hx heq
  have hdue : x.task ∈ (s.prepared clock).dueTasks := by
    rw [← (s.prepared clock).poised.map_task_shots world (s.prepared clock).dueTasks]
    exact List.mem_map_of_mem hx
  exact (List.nodup_append.1 hnodup).2.2 _ hdue _ ht (of_decide_eq_true heq)

theorem accept_layers_perm (s : Scheduler) (id : DamageId) (d : Damage) :
    (s.accept id d).2.layers.tasks.Perm (s.layers.tasks ++ s.newTasks id d) := by
  rcases s.accept_cases id d with ⟨hnil, _, heq⟩ | ⟨-, _, _, _, heq, -, -, hperm, -⟩
  · rw [heq, hnil, List.append_nil]
  · rw [heq]
    exact hperm

theorem acceptAll_layers_perm (s : Scheduler) (ps : List Parcel) :
    (s.acceptAll ps).2.layers.tasks.Perm (s.layers.tasks ++ (s.admitAll ps).flatten) := by
  induction ps generalizing s with
  | nil => simp [acceptAll, admitAll]
  | cons p rest ih =>
      refine (ih (s.accept p.id p.damage).2).trans ?_
      rw [admitAll, List.flatten_cons, ← List.append_assoc]
      exact (s.accept_layers_perm p.id p.damage).append_right _

theorem Ticks.agenda_eq {s : Scheduler} {d : Deed} {clock : Clock} (h : s.Ticks d clock) :
    (s.after d).agenda = (s.prepared clock).agenda.later clock.now := by
  obtain ⟨_, _, _, -, hafter⟩ := h.after_eq
  rw [hafter, settleAll_eq]
  show (s.prepared clock).agenda.later (s.prepared clock).clock.now = _
  rw [prepared_clock]

theorem Ticks.run_cons_le {s : Scheduler} {d : Deed} {clock : Clock} (h : s.Ticks d clock)
    (rest : List Deed) : clock.now ≤ (s.run (d :: rest)).clock.now := by
  have hascend := ((s.after d).turns_ascend rest).2.1
  rwa [h.clock_eq] at hascend

/-- What is due when a tick comes to its firing fires on it. -/
theorem Ticks.find?_firedOn_of_due {s : Scheduler} {d : Deed} {clock : Clock}
    (h : s.Ticks d clock) {t : Task} (ht : t ∈ (s.prepared clock).dueTasks) :
    ∃ x, (s.firedOn d).find? (·.task = t) = some x ∧ x.tick = clock.now := by
  obtain ⟨ω, _, world, hfired, -⟩ := h.after_eq
  rw [← (s.prepared clock).poised.map_task_shots world (s.prepared clock).dueTasks] at ht
  obtain ⟨x, hx⟩ := exists_find?_of_mem_map ht
  refine ⟨x, hfired ▸ hx, ?_⟩
  rw [tick_of_mem_shots (List.mem_of_find?_eq_some hx)]
  exact congrArg Clock.now (s.prepared_clock clock)

section Reachable

variable {settings : Regeneration} {seed : Tick} {s : Scheduler}
  {before rest : List Deed} {d : Deed} {clock : Clock} {t : Task} {deadline : Tick}

/-- A task that is on the agenda when a tick comes to its firing fires on its deadline, if it does
    so when it is still on the agenda after the tick. -/
theorem firesFirst_of_prepared (fresh : Scheduler.new settings seed = .ok s)
    (h : (s.run before).Ticks d clock)
    (ht : (deadline, t) ∈ ((s.run before).prepared clock).agenda.entries)
    (hdeadline : clock.now ≤ deadline)
    (hrest : (deadline, t) ∈ ((s.run before).after d).agenda.entries →
      ((s.run before).after d).FiresFirst rest t deadline) :
    (s.run before).FiresFirst (d :: rest) t deadline := by
  have hsorted : ((s.run before).prepared clock).agenda.Sorted := by
    rw [prepared_agenda]
    exact (planned_run fresh before).sorted.plan _
  by_cases hnow : deadline = clock.now
  · -- it is due now
    subst hnow
    have hdue : t ∈ ((s.run before).prepared clock).dueTasks := by
      rw [dueTasks, prepared_clock, Agenda.due, (Agenda.takeWhile_eq_filter hsorted).1]
      exact List.mem_map_of_mem (List.mem_filter.2 ⟨ht, decide_eq_true (Capped.le_refl _)⟩)
    obtain ⟨x, hx, htick⟩ := h.find?_firedOn_of_due hdue
    rw [FiresFirst, firingOf_cons, hx, if_pos (h.run_cons_le rest)]
    exact congrArg some htick
  · -- it stays on the agenda
    have hlt : clock.now < deadline :=
      Capped.lt_def.2 (Nat.lt_of_le_of_ne hdeadline fun heq => hnow (Capped.ext heq.symm))
    have hlater := (Agenda.mem_entries_later hsorted).2 ⟨ht, hlt⟩
    refine (hrest (h.agenda_eq ▸ hlater)).cons ?_
    refine h.find?_firedOn_eq_none (holds_run fresh before) (List.mem_append_right _ ?_)
    rw [poised, prepared_clock]
    exact List.mem_map_of_mem (f := Prod.snd) hlater

/-- A task on the agenda fires on its deadline. -/
theorem firesFirst_of_entry (fresh : Scheduler.new settings seed = .ok s)
    (ht : (deadline, t) ∈ (s.run before).agenda.entries) :
    (s.run before).FiresFirst rest t deadline := by
  have hfuture := (planned_run fresh before).future _ ht
  induction rest generalizing before with
  | nil =>
      -- nothing on the agenda is due yet
      exact (if_neg (Capped.not_le.2 (Capped.lt_def.2 hfuture))).symm
  | cons d rest ih =>
      have hrest : (deadline, t) ∈ ((s.run before).after d).agenda.entries →
          ((s.run before).after d).FiresFirst rest t deadline := by
        rw [← run_concat]
        exact fun hmem => ih hmem ((planned_run fresh _).future _ hmem)
      rcases (s.run before).deed_cases d with ⟨p, rfl⟩ | hquiet | ⟨clock, hticks⟩
      · refine (hrest ?_).cons rfl
        obtain ⟨_, _, _, _, heq⟩ := (s.run before).accept_eq p.id p.damage
        rw [Scheduler.after, heq]
        exact ht
      · obtain ⟨_, _, hafter⟩ := hquiet.after_eq
        refine (hrest ?_).cons (by rw [hquiet.fired, List.find?_nil])
        rw [hafter]
        exact ht
      · refine firesFirst_of_prepared fresh hticks ?_ ?_ hrest
        · rw [prepared_agenda]
          exact Agenda.mem_entries_plan.2 (Or.inl ht)
        · rw [Capped.le_def, Clock.now_of_advance hticks.moved]
          exact hfuture

/-- A task that waits in the layers when a tick comes to its release fires on the tick for which
    its appointment is, if it does so when it still waits after the tick. -/
theorem resolves_of_received (fresh : Scheduler.new settings seed = .ok s)
    (h : (s.run before).Ticks d clock)
    (ht : t ∈ ((s.run before).received clock).layers.tasks)
    (hrest : t ∈ ((s.run before).after d).layers.tasks → ((s.run before).after d).Resolves rest t) :
    (s.run before).Resolves (d :: rest) t := by
  have hnodup := ((s.run before).prepared clock).liveTasks_split.nodup_iff.2
    (holds_poised (holds_run fresh before) clock).nodup.of_map
  have hlowest := turn_takesLowest (h.received_ordered (ordered_run fresh before)).1
  have hturns : ((s.run before).turnsOn d).flatMap Turn.appointments
      = ((s.run before).received clock).turn.appointments := by
    rw [h.turns, List.flatMap_singleton]
  have hentry : ∀ a ∈ ((s.run before).received clock).turn.appointments, a.task = t →
      (a.deadline, t) ∈ ((s.run before).prepared clock).agenda.entries := by
    rintro a ha rfl
    rw [prepared_agenda]
    exact Agenda.mem_entries_plan.2 (Or.inr ⟨a, ha, rfl⟩)
  have hmem : t ∈ tasksAt t.pos.y ((s.run before).received clock).turn.found.tasks :=
    mem_tasksAt.2 ⟨ht, rfl⟩
  rw [hlowest.1.tasksAt_found, List.mem_append] at hmem
  rcases hmem with hmem | hmem
  · -- it is released, and stands on the agenda from then on
    obtain ⟨a, ha⟩ := exists_find?_of_mem_map (mem_tasksAt.1 hmem).1
    have hfirst : (s.run before).appointmentOf (d :: rest) t = some a := by
      rw [appointmentOf_cons, hturns, ha, Option.some_or]
    have hadded := List.mem_of_find?_eq_some ha
    have hmade : a.made = clock.now :=
      (((s.run before).received clock).follows_turn hadded).made_eq.trans
        (congrArg Clock.now ((s.run before).received_clock clock))
    refine ⟨fun hnone => (Option.some_ne_none a (hfirst.symm.trans hnone)).elim, fun a' ha' => ?_⟩
    obtain rfl := Option.some.inj (hfirst.symm.trans ha')
    refine firesFirst_of_prepared fresh h (hentry a hadded (by simpa using List.find?_some ha))
      (hmade ▸ a.made_le_deadline) fun hlater => ?_
    rw [← run_concat] at hlater ⊢
    exact firesFirst_of_entry fresh hlater
  · -- it goes on waiting, and nothing else underway is equal to it
    have hleft := (mem_tasksAt.1 hmem).1
    refine (hrest (h.layers_eq ▸ hleft)).cons ?_
      (h.find?_firedOn_eq_none (holds_run fresh before) (List.mem_append_left _ hleft))
    rw [hturns]
    refine List.find?_eq_none.2 fun a ha heq => ?_
    have hitem := List.mem_map_of_mem (f := Prod.snd) (hentry a ha (of_decide_eq_true heq))
    exact (List.nodup_append.1 hnodup).2.2 t hleft t hitem rfl

/-- A task that waits in the layers fires on the tick for which its appointment is. -/
theorem resolves_of_waiting (fresh : Scheduler.new settings seed = .ok s)
    (ht : t ∈ (s.run before).layers.tasks) : (s.run before).Resolves rest t := by
  induction rest generalizing before with
  | nil => exact ⟨fun _ => rfl, fun _ ha => nomatch ha⟩
  | cons d rest ih =>
      have hrest := @ih (before ++ [d])
      rw [run_concat] at hrest
      rcases (s.run before).deed_cases d with ⟨p, rfl⟩ | hquiet | ⟨clock, hticks⟩
      · refine (hrest ?_).cons rfl rfl
        exact ((s.run before).accept_layers_perm p.id p.damage).mem_iff.2
          (List.mem_append_left _ ht)
      · obtain ⟨_, _, hafter⟩ := hquiet.after_eq
        refine (hrest ?_).cons (by rw [hquiet.turns]; rfl) (by rw [hquiet.fired]; rfl)
        rw [hafter]
        exact ht
      · refine resolves_of_received fresh hticks ?_ hrest
        exact (((s.run before).atIntake clock).acceptAll_layers_perm _).mem_iff.2
          (List.mem_append_left _ ht)

end Reachable

end Scheduler

/-! ## The moment of admission -/

/-- The moments of a run at which damage is taken in: `s.Meets before after p m` says that the run
    of the deeds `before` and then `after` comes to the state `m` and takes in the parcel `p` next,
    which was submitted or has been waiting for the tick. -/
inductive Scheduler.Meets (s : Scheduler) :
    List Deed → List Deed → Parcel → Scheduler → Prop where
  | submitted (before after : List Deed) (p : Parcel) :
      Meets s before (.submit p :: after) p (s.run before)
  | waiting {ω η : Type} [Ground ω] [Listener η] (before : List Deed) (world : ω) (listener : η)
      (after : List Deed) {clock : Clock} (moved : (s.run before).clock.advance = .ok clock)
      {taken rest : List Parcel} {p : Parcel}
      (split : (s.run before).funnel.waiting = taken ++ p :: rest) :
      Meets s before (.tick world listener :: after) p
        (((s.run before).atIntake clock).acceptAll taken).2

namespace Scheduler.Meets

variable {s : Scheduler}

theorem of_mem_intakeAll {m : Scheduler} {ps : List Parcel} {i : Intake}
    (hi : i ∈ m.intakeAll ps) : ∃ taken rest, ps = taken ++ i.parcel :: rest ∧
      i.tick = m.clock.now ∧
      i.verdict = ((m.acceptAll taken).2.accept i.parcel.id i.parcel.damage).1 := by
  induction ps generalizing m with
  | nil => exact absurd hi List.not_mem_nil
  | cons p rest ih =>
      rcases List.mem_cons.1 hi with rfl | hi
      · exact ⟨[], rest, rfl, rfl, rfl⟩
      · obtain ⟨taken, rest', rfl, htick, hverdict⟩ := ih hi
        rw [accept_clock] at htick
        exact ⟨p :: taken, rest', rfl, htick, hverdict⟩

/-- Whatever a run takes in or discards, it comes to take it in at some moment. -/
theorem of_mem_intakes {deeds : List Deed} {i : Intake} (hi : i ∈ s.intakes deeds) :
    ∃ before after m, deeds = before ++ after ∧ s.Meets before after i.parcel m ∧
      i.tick = m.clock.now ∧ i.verdict = (m.accept i.parcel.id i.parcel.damage).1 := by
  obtain ⟨before, d, after, rfl, hdeed⟩ := of_mem_gather hi
  cases d with
  | submit p =>
      obtain rfl := List.mem_singleton.1 hdeed
      exact ⟨before, _, _, rfl, .submitted before after p, rfl, rfl⟩
  | send p => exact absurd hdeed List.not_mem_nil
  | setSpeed speed => exact absurd hdeed List.not_mem_nil
  | tick world listener =>
      cases hclock : (s.run before).clock.advance with
      | error e =>
          rw [(tick_error hclock world listener).2.1] at hdeed
          exact absurd hdeed List.not_mem_nil
      | ok clock =>
          rw [intakesOn_tick hclock] at hdeed
          obtain ⟨taken, rest, hsplit, htick, hverdict⟩ := of_mem_intakeAll hdeed
          refine ⟨before, _, _, rfl, .waiting before world listener after hclock hsplit, ?_,
            hverdict⟩
          rw [htick, acceptAll_clock]

variable {settings : Regeneration} {seed : Tick} {before after : List Deed} {p : Parcel}
  {m : Scheduler}

/-- What a moment of admission adds to the layers leaves in order, like all that waits then. -/
theorem leavesInOrder (fresh : Scheduler.new settings seed = .ok s)
    (h : s.Meets before after p m) :
    (m.accept p.id p.damage).2.layers.LeavesInOrder ((s.run before).appointed after) := by
  cases h with
  | submitted _ after =>
      have hleaves := (Passes.between (s := s) (before ++ [.submit p]) after).leavesInOrder
        (ordered_run fresh)
      rwa [run_concat] at hleaves
  | waiting _ world listener after moved split =>
      rename_i taken rest
      have hsplit : (s.run before).funnel.waiting = (taken ++ [p]) ++ rest := by
        rw [split, List.append_assoc]
        rfl
      have hleaves := (Passes.within before world listener after moved hsplit).leavesInOrder
        (ordered_run fresh)
      rwa [(acceptAll_append _ taken [p]).1] at hleaves

/-- Every task that a moment of admission adds fires on the tick for which its appointment is. -/
theorem resolves (fresh : Scheduler.new settings seed = .ok s) (h : s.Meets before after p m)
    {t : Task} (ht : t ∈ m.newTasks p.id p.damage) : (s.run before).Resolves after t := by
  have hadded : t ∈ (m.accept p.id p.damage).2.layers.tasks :=
    (m.accept_layers_perm p.id p.damage).mem_iff.2 (List.mem_append_right _ ht)
  cases h with
  | submitted _ after =>
      refine Resolves.cons ?_ rfl rfl
      rw [← run_concat]
      refine resolves_of_waiting fresh ?_
      rwa [run_concat]
  | waiting _ world listener after moved split =>
      rename_i taken rest
      refine resolves_of_received fresh (ticks_of_advance moved world listener) ?_ fun hleft => ?_
      · rw [received, split, (acceptAll_append _ taken (p :: rest)).1, acceptAll]
        exact (acceptAll_layers_perm _ rest).mem_iff.2 (List.mem_append_left _ hadded)
      · rw [← run_concat] at hleft ⊢
        exact resolves_of_waiting fresh hleft

end Scheduler.Meets

end Mend
