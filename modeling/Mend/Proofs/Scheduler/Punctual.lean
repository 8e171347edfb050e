import Mend.Proofs.Pacing
import Mend.Proofs.Scheduler.Bookkeeping
import Mend.Proofs.Scheduler.LowestFirst

set_option autoImplicit false

/-! # Tasks fire on time

An appointment is for the tick on which it is made plus the delay that the delay rule gives its
task at the speed in force. On that tick the task fires: up to the current tick, what fired on a
tick are the tasks of the appointments for it, in the order in which these were made; from the
next tick on, the items of the agenda are the tasks of the appointments for it
(`Planned`). Nothing that happens in between changes an entry of the agenda. -/

namespace Mend

/-! ## Appointments on the agenda -/

namespace Agenda

variable {a : Agenda Task}

theorem Sorted.plan (h : a.Sorted) (as : List Appointment) : (a.plan as).Sorted := by
  induction as generalizing a with
  | nil => exact h
  | cons x rest ih => exact ih (h.schedule x.deadline x.task)

theorem itemsAt_plan (h : a.Sorted) (as : List Appointment) (d : Tick) :
    (a.plan as).itemsAt d
      = a.itemsAt d ++ (as.filter (·.deadline = d)).map Appointment.task := by
  induction as generalizing a with
  | nil => simp [plan]
  | cons x rest ih =>
      refine (ih (h.schedule x.deadline x.task)).trans ?_
      rw [itemsAt_schedule h, List.filter_cons]
      by_cases hd : x.deadline = d <;> simp [hd]

end Agenda

namespace Appointment

variable (a : Appointment)

theorem val_deadline : a.deadline.val = min (a.made.val + a.delay.val) 18446744073709551615 := rfl

theorem made_le_deadline : a.made ≤ a.deadline := by
  have hmax := a.made.le_max
  rw [Capped.le_def, val_deadline]
  omega

end Appointment

/-! ## What fired and what is planned -/

/-- The agenda holds what is planned from tick `n` on, and what was planned for earlier ticks has
    fired, in both cases in the order in which it was planned. -/
structure Planned (as : List Appointment) (xs : List Shot) (n : Nat) (a : Agenda Task) : Prop where
  sorted : a.Sorted
  future : ∀ e ∈ a.entries, n ≤ e.1.val
  waiting : ∀ d : Tick, n ≤ d.val →
    a.itemsAt d = (as.filter (·.deadline = d)).map Appointment.task
  past : ∀ x ∈ xs, x.tick.val < n
  fired : ∀ d : Tick, d.val < n →
    (xs.filter (·.tick = d)).map Shot.task = (as.filter (·.deadline = d)).map Appointment.task

namespace Planned

variable {as more : List Appointment} {xs : List Shot} {n : Nat} {a : Agenda Task} {now : Tick}

/-- Planning for this tick or later. -/
theorem plan (h : Planned as xs now.val a) (hmore : ∀ x ∈ more, now ≤ x.deadline) :
    Planned (as ++ more) xs now.val (a.plan more) where
  sorted := h.sorted.plan more
  future e he := by
    rcases Agenda.mem_entries_plan.1 he with he | ⟨x, hx, rfl⟩
    · exact h.future e he
    · exact Capped.le_def.1 (hmore x hx)
  waiting d hd := by
    rw [Agenda.itemsAt_plan h.sorted, h.waiting d hd, List.filter_append, List.map_append]
  past := h.past
  fired d hd := by
    have hnone : more.filter (·.deadline = d) = [] := by
      refine List.filter_eq_nil_iff.2 fun x hx heq => ?_
      have hle := Capped.le_def.1 (hmore x hx)
      rw [of_decide_eq_true heq] at hle
      omega
    rw [h.fired d hd, List.filter_append, hnone, List.append_nil]

/-- Nothing is overdue, so what is due is what is planned for this tick. -/
theorem due_eq (h : Planned as xs now.val a) :
    a.due now = (as.filter (·.deadline = now)).map Appointment.task := by
  rw [Agenda.due_eq_itemsAt h.sorted fun e he => Capped.le_def.2 (h.future e he),
    h.waiting now (Nat.le_refl _)]

/-- Firing what is due. -/
theorem fire (h : Planned as xs now.val a) {ys : List Shot} (htask : ys.map Shot.task = a.due now)
    (htick : ∀ y ∈ ys, y.tick = now) : Planned as (xs ++ ys) (now.val + 1) (a.later now) where
  sorted := h.sorted.later now
  future e he := Capped.lt_def.1 ((Agenda.mem_entries_later h.sorted).1 he).2
  waiting d hd := by
    rw [Agenda.itemsAt_later h.sorted (Capped.lt_def.2 hd), h.waiting d (by omega)]
  past x hx := by
    rcases List.mem_append.1 hx with hx | hx
    · exact Nat.lt_succ_of_lt (h.past x hx)
    · rw [htick x hx]
      exact Nat.lt_succ_self _
  fired d hd := by
    rw [List.filter_append, List.map_append]
    by_cases hnow : d = now
    · -- nothing has fired on this tick before, and everything fires on it now
      subst hnow
      have hold : xs.filter (·.tick = d) = [] := by
        refine List.filter_eq_nil_iff.2 fun x hx heq => ?_
        have hlt := h.past x hx
        rw [of_decide_eq_true heq] at hlt
        exact Nat.lt_irrefl _ hlt
      have hnew : ys.filter (·.tick = d) = ys := by simpa using htick
      rw [hold, hnew, htask, h.due_eq]
      rfl
    · have hlt : d.val < now.val := by
        have hne : d.val ≠ now.val := fun heq => hnow (Capped.ext heq)
        omega
      have hnone : ys.filter (·.tick = d) = [] := by
        refine List.filter_eq_nil_iff.2 fun y hy heq => hnow ?_
        exact (of_decide_eq_true heq).symm.trans (htick y hy)
      rw [hnone, h.fired d hlt, List.map_nil, List.append_nil]

end Planned

theorem flow_planned :
    Flow (fun _ ts xs n s => Planned (ts.flatMap Turn.appointments) xs n s.agenda) where
  accept {gs ts xs n s} h _ p := by
    obtain ⟨_, _, _, _, heq⟩ := s.accept_eq p.id p.damage
    rwa [heq]
  turn {gs ts xs n s} h hnow ω _ world := by
    subst hnow
    have hclock : s.release.2.clock = s.clock := by
      obtain ⟨_, _, _, _, heq, -⟩ := s.release_eq
      rw [heq]
    have hmore : ∀ x ∈ s.turn.appointments, s.clock.now ≤ x.deadline := by
      intro x hx
      have hmade : x.made = s.clock.now := (s.follows_turn hx).made_eq
      exact hmade ▸ x.made_le_deadline
    have hplan := h.plan hmore
    rw [← s.release_agenda, ← hclock] at hplan
    rw [List.flatMap_append, List.flatMap_singleton, ← hclock]
    exact hplan.fire (s.release.2.poised.map_task_shots world _) fun y hy =>
      Scheduler.tick_of_mem_shots (s := s.release.2.poised) hy
  frame {gs ts xs n s s'} h _ _ hagenda _ := by rwa [hagenda]

/-- What has been planned has fired or is on the agenda. -/
theorem flow_appointed : Flow (fun _ ts xs _ s =>
    ((ts.flatMap Turn.appointments).map Appointment.task).Perm
      (xs.map Shot.task ++ s.agenda.items)) where
  accept {gs ts xs n s} h _ p := by
    obtain ⟨_, _, _, _, heq⟩ := s.accept_eq p.id p.damage
    rwa [heq]
  turn {gs ts xs n s} h _ ω _ world := by
    have hplan : (s.agenda.items ++ s.turn.appointments.map Appointment.task).Perm
        (s.release.2.agenda.due s.release.2.clock.now ++ s.release.2.poised.agenda.items) := by
      have hdue : s.release.2.agenda.due s.release.2.clock.now ++ s.release.2.poised.agenda.items
          = s.release.2.agenda.items := s.release.2.agenda.due_append_later _
      rw [hdue, s.release_agenda]
      exact (s.agenda.items_plan s.turn.appointments).symm
    have hshots : (s.release.2.dueShots world).map Shot.task
        = s.release.2.agenda.due s.release.2.clock.now :=
      s.release.2.poised.map_task_shots world _
    rw [List.flatMap_append, List.flatMap_singleton, List.map_append, List.map_append, hshots]
    refine (h.append_right _).trans ?_
    rw [List.append_assoc, List.append_assoc]
    exact hplan.append_left _
  frame {gs ts xs n s s'} h _ _ hagenda _ := by rwa [hagenda]

theorem count_map_pair {α β γ : Type} [DecidableEq β] [DecidableEq γ] (f : α → β) (g : α → γ)
    (xs : List α) (b : β) (c : γ) : (xs.map fun x => (f x, g x)).count (b, c)
      = ((xs.filter (f · = b)).map g).count c := by
  induction xs with
  | nil => rfl
  | cons x rest ih =>
      rw [List.map_cons, List.count_cons, ih, List.filter_cons]
      by_cases hb : f x = b <;> simp [hb, List.count_cons]

/-- Each appointment for a tick up to now has fired once, on its tick, and nothing else has. -/
theorem Planned.fired_perm {as : List Appointment} {xs : List Shot} {now : Tick} {a : Agenda Task}
    (h : Planned as xs (now.val + 1) a) : (xs.map fun x => (x.tick, x.task)).Perm
      ((as.filter (·.deadline ≤ now)).map fun x => (x.deadline, x.task)) := by
  rw [List.perm_iff_count]
  rintro ⟨d, t⟩
  rw [count_map_pair, count_map_pair, List.filter_filter]
  by_cases hd : d ≤ now
  · rw [h.fired d (Nat.lt_succ_of_le hd)]
    congr 2
    refine List.filter_congr fun x _ => ?_
    by_cases hx : x.deadline = d <;> simp [hx, hd]
  · -- nothing has fired on a later tick yet
    rw [List.filter_eq_nil_iff.2, List.filter_eq_nil_iff.2]
    · rfl
    · intro x _ hx
      simp only [Bool.and_eq_true, decide_eq_true_eq] at hx
      exact hd (hx.1 ▸ hx.2)
    · intro x hx heq
      exact hd (of_decide_eq_true heq ▸ Nat.le_of_lt_succ (h.past x hx))

/-! ## Which speed is in force -/

namespace Scheduler

theorem pacing_after (s : Scheduler) (d : Deed) :
    (s.after d).pacing = s.pacing.withSpeed (s.after d).speed := by
  rcases s.deed_cases d with ⟨p, rfl⟩ | hquiet | ⟨clock, hticks⟩
  · obtain ⟨_, _, _, _, heq⟩ := s.accept_eq p.id p.damage
    rw [Scheduler.after, heq]
    rfl
  · obtain ⟨funnel, speed, hafter⟩ := hquiet.after_eq
    rw [hafter]
    rfl
  · rw [speed, hticks.pacing_eq]
    rfl

/-- Nothing of the pacing but the speed ever changes. -/
theorem pacing_run {settings : Regeneration} {seed : Tick} {s : Scheduler}
    (fresh : Scheduler.new settings seed = .ok s) (deeds : List Deed) :
    (s.run deeds).pacing = settings.pacing.withSpeed (s.run deeds).speed := by
  induction deeds using List.reverseRecOn with
  | nil =>
      have hpacing : (s.run []).pacing = settings.pacing := (new_pace fresh).2.2
      rw [speed, hpacing]
      rfl
  | append_singleton deeds d ih =>
      rw [run_concat, pacing_after, ih]
      rfl

theorem follows_turnsOn {s : Scheduler} {d : Deed} {x : Turn} (hx : x ∈ s.turnsOn d)
    {a : Appointment} (ha : a ∈ x.appointments) : a.Follows x.tick s.pacing := by
  rcases s.deed_cases d with ⟨p, rfl⟩ | hquiet | ⟨clock, hticks⟩
  · exact absurd hx List.not_mem_nil
  · exact absurd (hquiet.turns ▸ hx) List.not_mem_nil
  · obtain rfl := List.mem_singleton.1 (hticks.turns ▸ hx)
    exact s.received_pacing clock ▸ (s.received clock).follows_turn ha

/-- What a run leaves behind was left behind by one of its deeds. -/
theorem of_mem_gather {α : Type} {f : Scheduler → Deed → List α} {s : Scheduler}
    {deeds : List Deed} {x : α} (hx : x ∈ gather f s deeds) :
    ∃ before d after, deeds = before ++ d :: after ∧ x ∈ f (s.run before) d := by
  induction deeds generalizing s with
  | nil => exact absurd hx List.not_mem_nil
  | cons d rest ih =>
      rcases List.mem_append.1 hx with hx | hx
      · exact ⟨[], d, rest, rfl, hx⟩
      · obtain ⟨before, d', after, rfl, hmem⟩ := ih hx
        exact ⟨d :: before, d', after, rfl, hmem⟩

end Scheduler

/-- No delay is shorter than one tick or the least delay that is set. -/
theorem Appointment.Follows.max_one_minDelay_le {a : Appointment} {now : Tick}
    {settings : Regeneration} {speed : Speed}
    (h : a.Follows now (settings.pacing.withSpeed speed)) :
    max 1 settings.minDelay.val ≤ a.delay.val := by
  rw [h.delay_eq, Pacing.val_delay, ← settings.val_minDelay]
  exact Nat.le_max_left _ _

/-! ## No task comes twice -/

/-- Where no identifier is handed in twice, the tasks that have fired and those underway are all
    different. -/
theorem kept_distinct : Kept (fun is p => p.id ∉ is.map (·.parcel.id))
    (fun is xs live s => s.pending.Holds (live.map Task.cell) ∧
      (xs.map Shot.task ++ live).Nodup ∧
      ∀ t ∈ xs.map Shot.task ++ live, t.damage ∈ is.map (·.parcel.id)) where
  accept {is xs live s} h p hp := by
    obtain ⟨hholds, hnodup, htaken⟩ := h
    have hholds' := @Kept.accept _ _ kept_pending is xs live s hholds p trivial
    have hlive := hholds'.nodup.of_map
    refine ⟨hholds', ?_, fun t ht => ?_⟩
    · rw [← List.append_assoc]
      refine List.nodup_append.2 ⟨hnodup, (List.nodup_append.1 hlive).2.1, ?_⟩
      -- the new tasks belong to damage that no other task belongs to
      rintro t ht u hu rfl
      exact hp (s.damage_of_mem_newTasks p.id p.damage hu ▸ htaken t ht)
    · rw [← List.append_assoc, List.mem_append] at ht
      rw [List.map_append, List.mem_append]
      rcases ht with ht | ht
      · exact Or.inl (htaken t ht)
      · exact Or.inr (List.mem_singleton.2 (s.damage_of_mem_newTasks p.id p.damage ht))
  settle {is xs t live s} h o := by
    obtain ⟨hholds, hnodup, htaken⟩ := h
    have hholds' := @Kept.settle _ _ kept_pending is xs t live s hholds o
    have hsame : (xs ++ [Shot.mk s.clock.now t o (s.settle t o).1]).map Shot.task ++ live
        = xs.map Shot.task ++ t :: live := by simp
    rw [hsame]
    exact ⟨hholds', hnodup, htaken⟩
  perm {is xs live live' s} h hperm :=
    ⟨h.1.perm (hperm.map Task.cell), (hperm.append_left _).nodup_iff.1 h.2.1,
      fun t ht => h.2.2 t ((hperm.append_left _).mem_iff.2 ht)⟩
  frame h hpending _ _ := ⟨hpending.symm ▸ h.1, h.2⟩

/-- In a list in which `f` tells elements apart, only `x` itself has the value of `x`. -/
theorem filter_eq_singleton {α β : Type} [DecidableEq β] {f : α → β} {xs : List α}
    (h : (xs.map f).Nodup) {x : α} (hx : x ∈ xs) : xs.filter (fun y => f y = f x) = [x] := by
  induction xs with
  | nil => exact absurd hx List.not_mem_nil
  | cons y rest ih =>
      obtain ⟨hnot, hrest⟩ := List.nodup_cons.1 h
      rcases List.mem_cons.1 hx with rfl | hx
      · rw [List.filter_cons_of_pos (by simp), List.filter_eq_nil_iff.2]
        intro z hz heq
        exact hnot (of_decide_eq_true heq ▸ List.mem_map_of_mem hz)
      · rw [List.filter_cons_of_neg, ih hrest hx]
        intro heq
        exact hnot (of_decide_eq_true heq ▸ List.mem_map_of_mem hx)

namespace Planned

variable {as : List Appointment} {xs : List Shot} {n : Nat} {agenda : Agenda Task}

/-- Where all tasks are different, a task that has fired did so on the tick for which it had its
    appointment. -/
theorem tick_eq (h : Planned as xs n agenda) (hnodup : (as.map Appointment.task).Nodup)
    {a : Appointment} (ha : a ∈ as) {x : Shot} (hx : x ∈ xs) (htask : x.task = a.task) :
    x.tick = a.deadline := by
  have hmem : x.task ∈ (xs.filter (·.tick = x.tick)).map Shot.task :=
    List.mem_map_of_mem (List.mem_filter.2 ⟨hx, decide_eq_true rfl⟩)
  rw [h.fired x.tick (h.past x hx)] at hmem
  obtain ⟨b, hb, hsame⟩ := List.mem_map.1 hmem
  obtain ⟨hb, hdeadline⟩ := List.mem_filter.1 hb
  obtain rfl := List.inj_on_of_nodup_map hnodup hb ha (hsame.trans htask)
  exact (of_decide_eq_true hdeadline).symm

/-- Where all tasks are different, each fires once, on the tick for which it has its
    appointment. -/
theorem once (h : Planned as xs n agenda) (hnodup : (as.map Appointment.task).Nodup)
    (hfired : (xs.map Shot.task).Nodup) {a : Appointment} (ha : a ∈ as) :
    (xs.filter (·.task = a.task)).map (·.tick.val)
      = if a.deadline.val < n then [a.deadline.val] else [] := by
  split_ifs with hlt
  · -- some firing on the tick is for this task, and no other firing is for an equal one
    have hmem : a.task ∈ (as.filter (·.deadline = a.deadline)).map Appointment.task :=
      List.mem_map_of_mem (List.mem_filter.2 ⟨ha, decide_eq_true rfl⟩)
    rw [← h.fired a.deadline hlt] at hmem
    obtain ⟨x, hx, htask⟩ := List.mem_map.1 hmem
    obtain ⟨hx, hdeadline⟩ := List.mem_filter.1 hx
    rw [← htask, filter_eq_singleton hfired hx, List.map_singleton,
      of_decide_eq_true hdeadline]
  · rw [List.filter_eq_nil_iff.2, List.map_nil]
    intro x hx htask
    have hpast := h.past x hx
    rw [h.tick_eq hnodup ha hx (of_decide_eq_true htask)] at hpast
    exact hlt hpast

end Planned

/-! ## Every run -/

/-- A scheduler with the given settings fires every task on time. -/
structure Scheduler.FiresOnTime (s : Scheduler) (settings : Regeneration) : Prop where
  /-- The firings of a run are those that its ticks perform. -/
  performed : s.PerformsFirings
  /-- What a tick releases gets its delay from the delay rule at the speed in force on the tick. -/
  delays : ∀ deeds {ω η : Type} [Ground ω] [Listener η] (world : ω) (listener : η)
    (r : Ticked ω η), (s.run deeds).tick world listener = .ok r →
    ∃ x : Turn, (s.run deeds).turnsOn (.tick world listener) = [x] ∧
      x.Reported (s.run deeds) r ∧ ∀ a ∈ x.appointments,
        a.Follows r.report.tick (settings.pacing.withSpeed (s.run deeds).speed)
  /-- The height that the delay rule is given is that above the lowest cell taken in with the same
      damage. -/
  heights : ∀ deeds, ∀ a ∈ s.appointed deeds, ∃ i g,
    (i, g) ∈ (s.intakes deeds).zip (s.admissions deeds) ∧ i.Admits g ∧ a.task ∈ g
  /-- No delay is shorter than one tick or the least delay that is set. -/
  floor : ∀ deeds, ∀ a ∈ s.appointed deeds, max 1 settings.minDelay.val ≤ a.delay.val
  /-- What has fired on a tick are the tasks that had an appointment for it, in the order in which
      their appointments were made. -/
  fires : ∀ deeds, ∀ tick ≤ (s.run deeds).clock.now,
    ((s.fired deeds).filter (·.tick = tick)).map Shot.task
      = ((s.appointed deeds).filter (·.deadline = tick)).map Appointment.task
  /-- Each appointment for a tick up to now has fired once, on its tick, and nothing else has. -/
  each : ∀ deeds, ((s.fired deeds).map fun x => (x.tick, x.task)).Perm
    (((s.appointed deeds).filter (·.deadline ≤ (s.run deeds).clock.now)).map
      fun a => (a.deadline, a.task))
  /-- If no identifier is handed in twice, a task fires once, as many ticks after its release as its
      delay says, and on no other tick. -/
  once : ∀ deeds, ((handedIn deeds).map Parcel.id).Nodup → ∀ a ∈ s.appointed deeds,
    a.made.val + a.delay.val < 18446744073709551616 →
    ((s.fired deeds).filter (·.task = a.task)).map (·.tick.val)
      = if a.made.val + a.delay.val < (s.run deeds).clock.now.val + 1 then
          [a.made.val + a.delay.val]
        else []
  /-- Whatever is left on the agenda is for a later tick. -/
  left : ∀ deeds, ∀ e ∈ (s.run deeds).agenda.entries, (s.run deeds).clock.now < e.1

section Reachable

variable {settings : Regeneration} {seed : Tick} {s : Scheduler}

theorem Scheduler.planned_run (fresh : Scheduler.new settings seed = .ok s) (deeds : List Deed) :
    Planned (s.appointed deeds) (s.fired deeds) ((s.run deeds).clock.now.val + 1)
      (s.run deeds).agenda := by
  obtain ⟨-, -, hagenda, -⟩ := Scheduler.new_eq fresh
  refine flow_planned.run fresh ?_ deeds
  rw [hagenda]
  exact ⟨Agenda.sorted_empty, by simp [Agenda.empty], by simp, by simp, by simp⟩

/-- Before the last tick there is, nothing fires on the tick of its release: what is due was on the
    agenda before the tick. -/
theorem Scheduler.mem_agenda_of_due (fresh : Scheduler.new settings seed = .ok s)
    (deeds : List Deed) {clock : Clock} (hlast : clock.now.val < 18446744073709551615) {t : Task}
    (ht : t ∈ ((s.run deeds).prepared clock).dueTasks) : t ∈ (s.run deeds).agenda.items := by
  rw [dueTasks, prepared_clock, prepared_agenda] at ht
  obtain ⟨e, he, rfl⟩ := List.mem_map.1 ht
  have hdue : e.1.val ≤ clock.now.val := of_decide_eq_true (List.mem_takeWhile_imp he :)
  rcases Agenda.mem_entries_plan.1 ((List.takeWhile_sublist _).subset he) with he | ⟨a, ha, rfl⟩
  · exact List.mem_map_of_mem he
  · -- an appointment made on this tick is for a later one
    have hfollows := ((s.run deeds).received clock).follows_turn ha
    rw [received_pacing, pacing_run fresh] at hfollows
    have hdelay := hfollows.max_one_minDelay_le
    have hmade : a.made.val = clock.now.val := by
      rw [hfollows.made_eq]
      exact congrArg (·.now.val) ((s.run deeds).received_clock clock)
    replace hdue : a.deadline.val ≤ clock.now.val := hdue
    rw [a.val_deadline] at hdue
    omega

/-- Every task that is released was admitted for some damage. -/
theorem Scheduler.admitted_of_appointed (fresh : Scheduler.new settings seed = .ok s)
    {deeds : List Deed} {a : Appointment} (ha : a ∈ s.appointed deeds) : ∃ i g,
    (i, g) ∈ (s.intakes deeds).zip (s.admissions deeds) ∧ i.Admits g ∧ a.task ∈ g := by
  have hwaiting := (flow_waiting.run fresh (waiting_start fresh) deeds).2.2 a.task.pos.y
  have hmem : a.task ∈ tasksAt a.task.pos.y (s.admissions deeds).flatten := by
    rw [hwaiting, List.mem_append]
    exact Or.inl (mem_tasksAt.2 ⟨List.mem_map_of_mem ha, rfl⟩)
  obtain ⟨g, hg, hmem⟩ := List.mem_flatten.1 (mem_tasksAt.1 hmem).1
  obtain ⟨hlength, hadmits⟩ := List.forall₂_iff_zip.1 (s.admits_run deeds)
  obtain ⟨k, hk, rfl⟩ := List.mem_iff_getElem.1 hg
  have hk' : k < (s.intakes deeds).length := hlength ▸ hk
  have hzip : ((s.intakes deeds)[k], (s.admissions deeds)[k])
      ∈ (s.intakes deeds).zip (s.admissions deeds) :=
    List.mem_iff_getElem.2 ⟨k, by rw [List.length_zip]; omega, List.getElem_zip⟩
  exact ⟨_, _, hzip, hadmits hzip, hmem⟩

/-- Where no identifier is handed in twice, no task is released twice and none fires twice. -/
theorem Scheduler.nodup_appointed (fresh : Scheduler.new settings seed = .ok s)
    {deeds : List Deed} (distinct : ((handedIn deeds).map Parcel.id).Nodup) :
    ((s.appointed deeds).map Appointment.task).Nodup ∧
      ((s.fired deeds).map Shot.task).Nodup := by
  obtain ⟨hpending, -, hagenda, -⟩ := Scheduler.new_eq fresh
  have hstart : s.pending.Holds (([] : List Task).map Task.cell) := by
    rw [hpending]
    exact Pending.holds_empty
  have hrun := kept_distinct.run fresh ⟨hstart, by simp, by simp⟩ deeds
    fun _ _ _ h => id_notMem_of_subperm distinct h
  have happointed := flow_appointed.run fresh (by rw [hagenda]; exact List.Perm.refl _) deeds
  -- what has been released has fired or is on the agenda, and so is among the tasks underway
  refine ⟨happointed.nodup_iff.2 (hrun.2.1.sublist ?_), (List.nodup_append.1 hrun.2.1).1⟩
  exact (List.Sublist.refl _).append (List.sublist_append_right _ _)

/-- **Tasks fire on time.** In every run of a fresh scheduler a task fires as many ticks after its
    release as the delay rule says at the speed in force on the tick of its release, once and on no
    other tick, whatever happens meanwhile; tasks that fire on the same tick do so in the order of
    their release; and what is left on the agenda after a tick is for a later one. -/
theorem fires_on_time (fresh : Scheduler.new settings seed = .ok s) :
    s.FiresOnTime settings where
  performed := s.performsFirings
  delays deeds _ _ _ _ world listener r h := by
    obtain ⟨x, hone, hreported⟩ := Scheduler.turnsOn_tick h
    refine ⟨x, hone, hreported, fun a ha => ?_⟩
    rw [← hreported.tick, ← Scheduler.pacing_run fresh]
    exact Scheduler.follows_turnsOn (hone ▸ List.mem_singleton_self x) ha
  heights deeds a ha := Scheduler.admitted_of_appointed fresh ha
  floor deeds a ha := by
    obtain ⟨x, hx, ha⟩ := List.mem_flatMap.1 ha
    obtain ⟨before, d, _, -, hx⟩ := Scheduler.of_mem_gather hx
    have hfollows := Scheduler.follows_turnsOn hx ha
    rw [Scheduler.pacing_run fresh] at hfollows
    exact hfollows.max_one_minDelay_le
  fires deeds tick htick :=
    (Scheduler.planned_run fresh deeds).fired tick (Nat.lt_succ_of_le htick)
  each deeds := (Scheduler.planned_run fresh deeds).fired_perm
  once deeds distinct a ha hsmall := by
    obtain ⟨hnodup, hfired⟩ := Scheduler.nodup_appointed fresh distinct
    have hdeadline : a.deadline.val = a.made.val + a.delay.val := by
      rw [a.val_deadline]
      omega
    have honce := (Scheduler.planned_run fresh deeds).once hnodup hfired ha
    rwa [hdeadline] at honce
  left deeds e he := Capped.lt_def.2 ((Scheduler.planned_run fresh deeds).future e he)

/-- Settings under which a layer is released on every tick, with short delays. -/
def brisk : Regeneration :=
  { Regeneration.default with naturalBase := 10, perLevel := 1, maxJitter := 3, layerInterval := 0 }

/-- Two tasks released together fire together and in order. A third, released at a lower speed,
    waits longer. -/
theorem fires_on_time_slowed : ∃ s, Scheduler.new brisk 7 = .ok s ∧
    let tick : Deed := .tick (Atlas.empty []) ()
    let deeds : List Deed := [.submit (quarried 1 [(0, 0), (1, 0), (0, 1)]), tick, .setSpeed 1]
      ++ List.replicate 10 tick
    s.FiresOnTime brisk ∧ ((handedIn deeds).map Parcel.id).Nodup ∧
      (s.appointed deeds).map (fun a => (a.made, a.delay)) = [(1, 2), (1, 2), (2, 9)] ∧
      (s.fired deeds).map (fun x => (x.tick, x.task.pos.x.val)) = [(3, 0), (3, 1), (11, 0)] :=
  ⟨_, rfl, @fires_on_time brisk 7 _ rfl, by decide, by decide +kernel, by decide +kernel⟩

end Reachable

end Mend
