import Mend.Proofs.Intake.Sifting
import Mend.Proofs.Ledger.Tallies
import Mend.Scheduler.Tick

set_option autoImplicit false

/-! # What each phase of the scheduler does

One statement for each phase says everything the phase does to the scheduler: `accept_cases` for
taking in damage, `release_eq` for releasing a layer, `settleAll_eq` for the bookkeeping behind
firing. Each gives the state afterwards as the state before with some parts replaced, so what is
not named there is unchanged, and says what became of the tasks underway. Later modules cite
these statements and do not open the phases again.

Firing interleaves three parties, the ground, the listener and the scheduler. `Scheduler.shots`
lists what each firing of a tick does; the firing of a tick is this list played to the three of
them (`foldl_firing_step`). -/

namespace Mend

/-- The cell that a task restores. -/
def Task.cell (t : Task) : WorldName × Pos := (t.world, t.pos)

/-! ## Taking in damage -/

namespace Scheduler

/-- The tasks underway: those in the layers and those on the agenda. -/
def liveTasks (s : Scheduler) : List Task := s.layers.tasks ++ s.agenda.items

/-- The cells of damage that would be taken in. -/
def eligible (s : Scheduler) (d : Damage) : List LostCell :=
  (Sifted.ofCells d.world d.cells s.pending s.cap).1.taken

/-- The tasks that taking in damage adds. -/
def newTasks (s : Scheduler) (id : DamageId) (d : Damage) : List Task :=
  if s.pacing.isDisabled then []
  else match lowestElevation? (s.eligible d) with
    | none => []
    | some base => (s.eligible d).map (·.task id d.world base)

/-- The record that damage with `n` tasks is opened with. -/
def openRecord (s : Scheduler) (id : DamageId) (d : Damage) (n : Nat) : Record :=
  { damage := id, world := d.world, origin := d.origin, intensity := d.intensity,
    remaining := Capped.clamp n, tally := Tally.zero, submitted := s.clock.now }

variable (s : Scheduler) (id : DamageId) (d : Damage)

theorem newTasks_of_disabled (h : s.pacing.isDisabled = true) : s.newTasks id d = [] :=
  if_pos h

/-- While regeneration is on, each eligible cell has a task with its position and content. -/
theorem map_newTasks {α : Type} (f : WorldName → Pos → Content → α)
    (h : s.pacing.isDisabled = false) :
    (s.newTasks id d).map (fun t => f t.world t.pos t.content)
      = (s.eligible d).map fun c => f d.world c.pos c.content := by
  rw [newTasks, if_neg (by rw [h]; exact Bool.false_ne_true)]
  cases hlow : lowestElevation? (s.eligible d) with
  | none => rw [lowestElevation?_eq_none_iff.1 hlow]; rfl
  | some base => simp [LostCell.task]

theorem newTasks_cells (h : s.pacing.isDisabled = false) :
    (s.newTasks id d).map Task.cell = (s.eligible d).map fun c => (d.world, c.pos) :=
  map_newTasks s id d (fun w a _ => (w, a)) h

theorem damage_of_mem_newTasks {t : Task} (ht : t ∈ s.newTasks id d) : t.damage = id := by
  unfold newTasks at ht
  split at ht
  · exact absurd ht List.not_mem_nil
  · split at ht
    · exact absurd ht List.not_mem_nil
    · obtain ⟨c, -, rfl⟩ := List.mem_map.1 ht
      rfl

theorem length_newTasks_le : (s.newTasks id d).length ≤ d.cells.length := by
  have hsub : (s.eligible d).length ≤ d.cells.length :=
    (Sifted.taken_sublist d.world s.cap d.cells s.pending).length_le
  unfold newTasks
  split
  · exact Nat.zero_le _
  · split
    · exact Nat.zero_le _
    · rwa [List.length_map]

/-- Damage is discarded and nothing changes, or it is accepted: then it has at least one task,
    its tasks join the layers, their cells become pending, and a record is opened for it. -/
theorem accept_cases :
    (s.newTasks id d = [] ∧ ∃ reason, s.accept id d = (.discarded id reason, s)) ∨
    (s.newTasks id d ≠ [] ∧ ∃ a pending layers,
      s.accept id d = (.accepted a,
        { s with
          pending, layers
          drain := s.drain.wake s.clock.now
          ledger := s.ledger.register (s.openRecord id d (s.newTasks id d).length) }) ∧
      a.damage = id ∧ a.cells = Capped.clamp (s.newTasks id d).length ∧
      layers.tasks.Perm (s.layers.tasks ++ s.newTasks id d) ∧
      (s.layers.WellFilled → layers.WellFilled) ∧
      ∀ cells, s.pending.Holds cells →
        pending.Holds (cells ++ (s.newTasks id d).map Task.cell)) := by
  by_cases hoff : s.pacing.isDisabled = true
  · refine Or.inl ⟨s.newTasks_of_disabled id d hoff, .disabled, ?_⟩
    rw [accept, if_pos hoff]
  · have hon : s.pacing.isDisabled = false := Bool.eq_false_iff.2 hoff
    cases hlow : lowestElevation? (s.eligible d) with
    | none =>
        have hnil : s.eligible d = [] := lowestElevation?_eq_none_iff.1 hlow
        have hlayers : layersOf id d.world (s.eligible d) = ([], none) := by
          rw [layersOf, hlow]
        refine Or.inl ⟨by rw [newTasks, if_neg hoff, hlow], .noEligibleCells, ?_⟩
        have hpending : (Sifted.ofCells d.world d.cells s.pending s.cap).2 = s.pending :=
          Sifted.pending_of_taken_nil d.world s.cap d.cells s.pending hnil
        simp only [eligible] at hlayers
        simp only [accept, if_neg hoff, hlayers, hpending]
    | some base =>
        have htasks : s.newTasks id d = (s.eligible d).map (·.task id d.world base) := by
          rw [newTasks, if_neg hoff, hlow]
        have hne : s.newTasks id d ≠ [] := by
          rw [htasks, Ne, List.map_eq_nil_iff]
          intro hnil
          rw [lowestElevation?_eq_none_iff.2 hnil] at hlow
          cases hlow
        have hlength : (s.newTasks id d).length = (s.eligible d).length := by
          rw [htasks, List.length_map]
        have hlayers : layersOf id d.world (s.eligible d)
            = ((layersOf id d.world (s.eligible d)).1, some base) := by
          rw [← hlow, ← layersOf_snd id d.world]
        generalize hls : (layersOf id d.world (s.eligible d)).1 = ls at hlayers
        let sifted := Sifted.ofCells d.world d.cells s.pending s.cap
        refine Or.inr ⟨hne,
          { damage := id, cells := Capped.clamp (s.eligible d).length, layers := ls.length,
            lowest := base, alreadyPending := sifted.1.alreadyPending,
            overCap := sifted.1.overCap },
          sifted.2, ls.foldl LayerQueue.merge s.layers, ?_, rfl,
          congrArg Capped.clamp hlength.symm, ?_, fun h => h.mergeAll ls, fun cells h => ?_⟩
        · rw [hlength]
          simp only [eligible] at hlayers
          simp only [accept, if_neg hoff, hlayers]
          rfl
        · refine (LayerQueue.tasks_mergeAll s.layers ls).trans (List.Perm.append_left _ ?_)
          rw [htasks, ← hls]
          exact tasks_layersOf hlow
        · rw [s.newTasks_cells id d hon]
          exact Sifted.holds_ofCells d.world s.cap d.cells h

/-- Taking in damage changes the pending set, the layers, the drain and the ledger, and nothing
    else. -/
theorem accept_eq : ∃ pending layers drain ledger,
    (s.accept id d).2 = { s with pending, layers, drain, ledger } := by
  rcases s.accept_cases id d with ⟨-, reason, h⟩ | ⟨-, a, pending, layers, h, -⟩
  · exact ⟨s.pending, s.layers, s.drain, s.ledger, by rw [h]⟩
  · exact ⟨pending, layers, _, _, by rw [h]⟩

/-! ## Releasing a layer -/

/-- Putting tasks on the agenda draws from the generator and changes nothing but the agenda. -/
theorem foldl_scheduleTask (ts : List Task) :
    ∃ random agenda, ts.foldl scheduleTask s = { s with random, agenda } ∧
      agenda.items.Perm (s.agenda.items ++ ts) := by
  induction ts generalizing s with
  | nil => exact ⟨s.random, s.agenda, rfl, by rw [List.append_nil]⟩
  | cons t rest ih =>
      obtain ⟨random, agenda, heq, hperm⟩ := ih (s.scheduleTask t)
      refine ⟨random, agenda, heq, hperm.trans ?_⟩
      rw [← List.singleton_append, ← List.append_assoc]
      exact (s.agenda.items_schedule _ t).append_right rest

/-- A release moves tasks from the layers to the agenda and draws from the generator. -/
theorem release_eq :
    ∃ drain layers agenda random, s.release.2 = { s with drain, layers, agenda, random } ∧
      (layers.tasks ++ agenda.items).Perm s.liveTasks ∧
      (s.layers.WellFilled → layers.WellFilled) := by
  have htasks := s.drain.tasks_poll s.clock.now s.layers
  have hfilled := fun h : s.layers.WellFilled => h.poll s.drain s.clock.now
  unfold release
  generalize s.drain.poll s.clock.now s.layers = polled at htasks hfilled ⊢
  obtain ⟨released, drain, layers⟩ := polled
  cases released with
  | none =>
      refine ⟨drain, layers, s.agenda, s.random, rfl, ?_, hfilled⟩
      rw [liveTasks, htasks]
      exact List.Perm.refl _
  | some layer =>
      obtain ⟨random, agenda, heq, hperm⟩ :=
        foldl_scheduleTask { s with drain, layers } layer.tasks
      refine ⟨drain, layers, agenda, random, heq, ?_, hfilled⟩
      rw [liveTasks, htasks]
      -- the released tasks stand before the layers on one side, behind the agenda on the other
      refine (hperm.append_left layers.tasks).trans ?_
      rw [← List.append_assoc]
      refine List.perm_append_comm.trans ?_
      rw [← List.append_assoc]
      exact List.Perm.refl _

end Scheduler

/-! ## Firing -/

/-- What one firing does: how the cell of a task comes out, and the completion it brings about. -/
structure Shot where
  tick : Tick
  task : Task
  outcome : Outcome
  /-- What the listener is told right after the firing, if anything. -/
  completion : Option Completion
deriving DecidableEq

/-- The completions that some firings bring about, in order. -/
def completionsOf (xs : List Shot) : List Completion := xs.filterMap Shot.completion

/-- A listener after it was told of the given completions, in order, whatever it answered. -/
def Listener.hear {η : Type} [Listener η] (listener : η) (cs : List Completion) : η :=
  cs.foldl (fun l c => (Listener.notify l c).2) listener

namespace Scheduler

variable {ω η : Type} [Ground ω] [Listener η]

/-- What the firings of the given tasks do, one after the other. -/
def shots (s : Scheduler) (world : ω) : List Task → List Shot
  | [] => []
  | t :: rest =>
    let (outcome, world) := fire world t
    let (completion, next) := s.settle t outcome
    ⟨s.clock.now, t, outcome, completion⟩ :: next.shots world rest

/-- The scheduler after its part in the given firings. -/
def settleAll (s : Scheduler) (xs : List Shot) : Scheduler :=
  xs.foldl (fun s x => (s.settle x.task x.outcome).2) s

/-- Firing tasks is playing what their firings do to the scheduler, the ground, the listener and
    the tally, each for itself. -/
theorem foldl_firing_step (ts : List Task) (f : Firing ω η) :
    ts.foldl Firing.step f =
      { scheduler := f.scheduler.settleAll (f.scheduler.shots f.world ts)
        world := ts.foldl (fun w t => (fire w t).2) f.world
        listener := Listener.hear f.listener (completionsOf (f.scheduler.shots f.world ts))
        tally := ((f.scheduler.shots f.world ts).map Shot.outcome).foldl Tally.record f.tally
        completions :=
          (completionsOf (f.scheduler.shots f.world ts)).reverse ++ f.completions } := by
  induction ts generalizing f with
  | nil => rfl
  | cons t rest ih =>
      rw [List.foldl_cons, ih]
      obtain ⟨s, w, l, tally, cs⟩ := f
      simp only [Firing.step, shots]
      cases hsettle : s.settle t (fire w t).1 with
      | mk completion next =>
          cases completion <;>
            simp [settleAll, completionsOf, Listener.hear, hsettle]

@[simp] theorem map_task_shots (s : Scheduler) (world : ω) (ts : List Task) :
    (s.shots world ts).map Shot.task = ts := by
  induction ts generalizing s world with
  | nil => rfl
  | cons t rest ih => simp only [shots, List.map_cons, ih]

theorem tick_of_mem_shots {s : Scheduler} {world : ω} {ts : List Task} {x : Shot}
    (hx : x ∈ s.shots world ts) : x.tick = s.clock.now := by
  induction ts generalizing s world with
  | nil => exact absurd hx List.not_mem_nil
  | cons t rest ih =>
      rcases List.mem_cons.1 hx with rfl | hx
      · rfl
      · exact @ih (s.settle t (fire world t).1).2 (fire world t).2 hx

/-- Firing changes which cells are pending and what the ledger says, and nothing else. -/
theorem settleAll_eq (s : Scheduler) (xs : List Shot) :
    s.settleAll xs =
      { s with
        pending := xs.foldl (fun p x => (p.remove x.task.world x.task.pos).2) s.pending
        ledger := xs.foldl (fun l x => (l.resolve x.task.damage x.outcome).2) s.ledger } := by
  induction xs generalizing s with
  | nil => rfl
  | cons x rest ih => exact ih (s.settle x.task x.outcome).2

/-! ## The whole tick -/

/-- The tasks that have fallen due. -/
def dueTasks (s : Scheduler) : List Task := s.agenda.due s.clock.now

/-- The scheduler when firing begins: what is due is off the agenda. -/
def poised (s : Scheduler) : Scheduler := { s with agenda := s.agenda.later s.clock.now }

/-- What firing everything that is due does. -/
def dueShots (s : Scheduler) (world : ω) : List Shot := s.poised.shots world s.dueTasks

/-- The scheduler on a tick after intake and release, once the clock has moved. -/
def prepared (s : Scheduler) (clock : Clock) : Scheduler := ({ s with clock }.takeIn).2.release.2

/-- Taking in several parcels changes only what taking in one changes. -/
theorem acceptAll_eq (s : Scheduler) (ps : List Parcel) :
    ∃ pending layers drain ledger,
      (s.acceptAll ps).2 = { s with pending, layers, drain, ledger } := by
  induction ps generalizing s with
  | nil => exact ⟨s.pending, s.layers, s.drain, s.ledger, rfl⟩
  | cons p rest ih =>
      obtain ⟨pending, layers, drain, ledger, heq⟩ := ih (s.accept p.id p.damage).2
      obtain ⟨_, _, _, _, hone⟩ := s.accept_eq p.id p.damage
      refine ⟨pending, layers, drain, ledger, heq.trans ?_⟩
      rw [hone]

/-- The steps of a tick before firing move the clock and empty the funnel, and leave alone what
    intake and release leave alone. -/
theorem prepared_eq (s : Scheduler) (clock : Clock) :
    ∃ pending layers drain agenda ledger random, s.prepared clock =
      { s with clock, funnel := s.funnel.drained, pending, layers, drain, agenda, ledger,
               random } := by
  obtain ⟨pending, _, _, ledger, hacc⟩ :=
    ({ s with clock, funnel := s.funnel.drained } : Scheduler).acceptAll_eq s.funnel.waiting
  obtain ⟨drain, layers, agenda, random, hrel, -⟩ := ({ s with clock }.takeIn).2.release_eq
  refine ⟨pending, layers, drain, agenda, ledger, random, ?_⟩
  replace hacc : ({ s with clock }.takeIn).2 = _ := hacc
  rw [prepared, hrel, hacc]

@[simp] theorem prepared_clock (s : Scheduler) (clock : Clock) :
    (s.prepared clock).clock = clock := by
  obtain ⟨_, _, _, _, _, _, heq⟩ := s.prepared_eq clock
  rw [heq]

/-- A tick fails with the clock and changes nothing, or it moves the clock, takes in what was
    sent, releases a layer if one is due, and fires what is due. -/
theorem tick_cases (s : Scheduler) (world : ω) (listener : η) :
    (∃ e, s.clock.advance = .error e ∧ s.tick world listener = .error (.clock e)) ∨
    (∃ clock, s.clock.advance = .ok clock ∧
      s.tick world listener = .ok
        { report :=
            { tick := clock.now
              intake := ({ s with clock }.takeIn).1
              release := ({ s with clock }.takeIn).2.release.1
              tally := (((s.prepared clock).dueShots world).map Shot.outcome).foldl Tally.record
                Tally.zero
              completions := completionsOf ((s.prepared clock).dueShots world) }
          scheduler := (s.prepared clock).poised.settleAll ((s.prepared clock).dueShots world)
          world := (s.prepared clock).dueTasks.foldl (fun w t => (fire w t).2) world
          listener :=
            Listener.hear listener (completionsOf ((s.prepared clock).dueShots world)) }) := by
  cases hclock : s.clock.advance with
  | error e => exact Or.inl ⟨e, rfl, by simp only [tick, prepare, hclock]⟩
  | ok clock =>
      refine Or.inr ⟨clock, rfl, ?_⟩
      rw [← congrArg Clock.now (s.prepared_clock clock)]
      simp only [tick, prepare, hclock, fireDue, Agenda.drain, foldl_firing_step, List.append_nil,
        List.reverse_reverse]
      rfl

/-- A tick that runs has moved the clock, and leaves what firing leaves. -/
theorem tick_eq_ok {s : Scheduler} {world : ω} {listener : η} {r : Ticked ω η}
    (h : s.tick world listener = .ok r) :
    ∃ clock, s.clock.advance = .ok clock ∧ r.report.tick = clock.now ∧
      r.report.tally = (((s.prepared clock).dueShots world).map Shot.outcome).foldl Tally.record
        Tally.zero ∧
      r.report.completions = completionsOf ((s.prepared clock).dueShots world) ∧
      r.scheduler = (s.prepared clock).poised.settleAll ((s.prepared clock).dueShots world) ∧
      r.world = (s.prepared clock).dueTasks.foldl (fun w t => (fire w t).2) world ∧
      r.listener = Listener.hear listener r.report.completions := by
  rcases s.tick_cases world listener with ⟨e, -, herror⟩ | ⟨clock, hclock, hok⟩
  · rw [h] at herror
    cases herror
  · rw [h] at hok
    cases hok
    exact ⟨clock, hclock, rfl, rfl, rfl, rfl, rfl, rfl⟩

/-- A tick that runs has moved the clock by one tick, to the tick of its report. -/
theorem now_of_tick {s : Scheduler} {world : ω} {listener : η} {t : Ticked ω η}
    (h : s.tick world listener = .ok t) :
    t.report.tick.val = s.clock.now.val + 1 ∧ t.scheduler.clock.now = t.report.tick := by
  obtain ⟨clock, hclock, htick, -, -, hscheduler, -, -⟩ := tick_eq_ok h
  refine ⟨by rw [htick, Clock.now_of_advance hclock], ?_⟩
  rw [hscheduler, settleAll_eq, htick]
  exact congrArg Clock.now (s.prepared_clock clock)

/-! ## Sending -/

/-- Sending damage changes the funnel and nothing else. -/
theorem send_eq_ok {s s' : Scheduler} {id : DamageId} {d : Damage} (h : s.send id d = .ok s') :
    ∃ funnel, s.funnel.send id d = .ok funnel ∧ s' = { s with funnel } := by
  unfold send at h
  cases hsend : s.funnel.send id d with
  | error e =>
      rw [hsend] at h
      cases h
  | ok funnel =>
      rw [hsend] at h
      cases h
      exact ⟨funnel, rfl, rfl⟩

end Scheduler

end Mend
