import Mend.Proofs.Queue.Interleaving
import Mend.Proofs.Scheduler.Accounts
import Mend.Proofs.Scheduler.LowestFirst
import Mend.Proofs.Scheduler.Punctual

set_option autoImplicit false

/-! # Schedulers that took in the same damage in another order

Two schedulers are *shuffled* if they have the same tasks underway and agree in everything else,
but for how the tasks of different damage are interleaved in their queues. Without a cap and without
jitter they stay shuffled, whatever is done to both: they come to the same verdicts
(`Scheduler.Shuffled.accept`), release layers at the same elevations (`Scheduler.Shuffled.release`),
and fire the same tasks on the same ticks (`Scheduler.Shuffled.fire`). Of each damage they fire the
tasks in the same order, so that its record says the same and closes on the same firing; only the
firings of different damage may change places.

Damage that shares no cell makes schedulers shuffled when it is taken in in one order or the other
(`Scheduler.shuffled_of_apart`). -/

namespace Mend

namespace Scheduler

/-! ## What intake depends on -/

section Intake

variable {s s' : Scheduler} {d : Damage}

/-- The verdict on damage and the tasks it adds depend only on the pacing and on what sifting
    takes. -/
theorem accept_congr (hpacing : s'.pacing = s.pacing)
    (hsifted : (Sifted.ofCells d.world d.cells s'.pending s'.cap).1
      = (Sifted.ofCells d.world d.cells s.pending s.cap).1) (id : DamageId) :
    (s'.accept id d).1 = (s.accept id d).1 ∧ s'.newTasks id d = s.newTasks id d := by
  constructor
  · unfold accept
    rw [hpacing]
    split
    · rfl
    · generalize Sifted.ofCells d.world d.cells s'.pending s'.cap = r',
        Sifted.ofCells d.world d.cells s.pending s.cap = r at hsifted
      obtain ⟨sifted, pending⟩ := r
      obtain ⟨_, pending'⟩ := r'
      obtain rfl : _ = sifted := hsifted
      dsimp only
      split <;> rfl
  · simp only [newTasks, eligible, hpacing, hsifted]

/-- What sifting takes depends, without a cap, only on which of the cells are pending. -/
theorem accept_congr_of_uncapped (hpacing : s'.pacing = s.pacing) (huncapped : s.cap = none)
    (huncapped' : s'.cap = none)
    (h : ∀ c ∈ d.cells, s'.pending.contains d.world c.pos = s.pending.contains d.world c.pos)
    (id : DamageId) :
    (s'.accept id d).1 = (s.accept id d).1 ∧ s'.newTasks id d = s.newTasks id d := by
  refine accept_congr hpacing ?_ id
  have hfold := Sifted.foldl_step_congr d.cells Sifted.nothing h
  rw [huncapped, huncapped', Sifted.ofCells, Sifted.ofCells]
  dsimp only
  rw [hfold]

variable (s d)

/-- Without a cap all cells of damage are pending once it was taken in, besides those that were. -/
theorem contains_accept (huncapped : s.cap = none) (id : DamageId) (w : WorldName) (a : Pos) :
    (s.accept id d).2.pending.contains w a = (s.pending.contains w a ||
      (!s.pacing.isDisabled && decide (d.world = w ∧ a ∈ d.cells.map LostCell.pos))) := by
  unfold accept
  by_cases hoff : s.pacing.isDisabled = true
  · simp [hoff]
  · have hpending : (Sifted.ofCells d.world d.cells s.pending s.cap).2.contains w a
        = (s.pending.contains w a || decide (d.world = w ∧ a ∈ d.cells.map LostCell.pos)) := by
      rw [huncapped]
      exact Sifted.contains_foldl_step d.cells Sifted.nothing s.pending w a
    rw [if_neg hoff, Bool.eq_false_iff.2 hoff, Bool.not_false, Bool.true_and, ← hpending]
    dsimp only
    split <;> rfl

/-- Intake wakes the drain and opens a record if it adds tasks, and only then. -/
theorem accept_rest (id : DamageId) : ∃ pending layers, (s.accept id d).2 =
    { s with
      pending, layers
      drain := if s.newTasks id d = [] then s.drain else s.drain.wake s.clock.now
      ledger := if s.newTasks id d = [] then s.ledger
        else s.ledger.register (s.openRecord id d (s.newTasks id d).length) } := by
  rcases s.accept_cases id d with ⟨hnil, _, heq⟩ | ⟨hne, _, pending, layers, heq, -⟩
  · exact ⟨s.pending, s.layers, by rw [heq, if_pos hnil, if_pos hnil]⟩
  · exact ⟨pending, layers, by rw [heq, if_neg hne, if_neg hne]⟩

end Intake

/-! ## Plain and shuffled schedulers -/

/-- A scheduler without a cap on pending cells and without jitter, whose queues are in order. -/
structure Plain (s : Scheduler) : Prop where
  uncapped : s.cap = none
  steady : s.pacing.maxJitter.val = 0
  ordered : s.layers.Ordered
  sorted : s.agenda.Sorted

/-- The two schedulers agree but for how the tasks of different damage are interleaved: the same
    cells are pending, and of each damage the same tasks wait at each elevation and on the agenda,
    in the same order. -/
structure Shuffled (s s' : Scheduler) : Prop where
  rest : s' = { s with pending := s'.pending, layers := s'.layers, agenda := s'.agenda }
  plain : s.Plain
  plain' : s'.Plain
  pending : ∀ w a, s'.pending.contains w a = s.pending.contains w a
  layers : ∀ y, SameFor Task.damage (tasksAt y s.layers.tasks) (tasksAt y s'.layers.tasks)
  agenda : SameFor (·.2.damage) s.agenda.entries s'.agenda.entries

variable {s s' : Scheduler}

theorem Shuffled.exists_eq (h : s.Shuffled s') :
    ∃ pending layers agenda, s' = { s with pending, layers, agenda } := ⟨_, _, _, h.rest⟩

theorem Plain.accept (h : s.Plain) (id : DamageId) (d : Damage) : (s.accept id d).2.Plain := by
  have hordered := (accept_ordered h.ordered id d).1
  obtain ⟨_, _, _, _, heq⟩ := s.accept_eq id d
  rw [heq] at hordered ⊢
  exact ⟨h.uncapped, h.steady, hordered, h.sorted⟩

theorem accept_agenda (s : Scheduler) (id : DamageId) (d : Damage) :
    (s.accept id d).2.agenda = s.agenda := by
  obtain ⟨_, _, _, _, heq⟩ := s.accept_eq id d
  rw [heq]

/-- Damage that is taken in by shuffled schedulers. -/
theorem Shuffled.accept (h : s.Shuffled s') (id : DamageId) (d : Damage) :
    (s'.accept id d).1 = (s.accept id d).1 ∧ (s.accept id d).2.Shuffled (s'.accept id d).2 := by
  have hpacing : s'.pacing = s.pacing := by rw [h.rest]
  obtain ⟨hverdict, htasks⟩ := accept_congr_of_uncapped hpacing h.plain.uncapped
    h.plain'.uncapped (fun c _ => h.pending d.world c.pos) id
  obtain ⟨_, hat⟩ := accept_ordered h.plain.ordered id d
  obtain ⟨_, hat'⟩ := accept_ordered h.plain'.ordered id d
  refine ⟨hverdict,
    { rest := ?_
      plain := h.plain.accept id d
      plain' := h.plain'.accept id d
      pending := fun w a => ?_
      layers := fun y => ?_
      agenda := ?_ }⟩
  · obtain ⟨_, _, heq⟩ := s.accept_rest d id
    obtain ⟨_, _, heq'⟩ := s'.accept_rest d id
    rw [heq, heq', htasks, h.rest]
    rfl
  · rw [contains_accept s d h.plain.uncapped, contains_accept s' d h.plain'.uncapped, h.pending,
      hpacing]
  · rw [hat, hat', htasks]
    exact (h.layers y).append (SameFor.refl _)
  · rw [accept_agenda, accept_agenda]
    exact h.agenda

/-! ## Damage that takes no cell in common -/

end Scheduler

/-- The two have no cell in common. -/
def Damage.Apart (d e : Damage) : Prop :=
  d.world = e.world → ∀ c ∈ d.cells, ∀ c' ∈ e.cells, c.pos ≠ c'.pos

instance (d e : Damage) : Decidable (d.Apart e) :=
  inferInstanceAs (Decidable (d.world = e.world → ∀ c ∈ d.cells, ∀ c' ∈ e.cells, c.pos ≠ c'.pos))

theorem Damage.Apart.symm {d e : Damage} (h : d.Apart e) : e.Apart d :=
  fun hworld c hc c' hc' heq => h hworld.symm c' hc' c hc heq.symm

/-- Records of different damage may be opened in any order. -/
theorem Ledger.register_comm (l : Ledger) {r r' : Record} (hne : r.damage ≠ r'.damage) :
    (l.register r).register r' = (l.register r').register r := by
  unfold register
  split_ifs
  · rfl
  · rfl
  · rfl
  · refine congrArg Ledger.mk (Std.ExtTreeMap.ext_getElem? fun id => ?_)
    simp only [Std.ExtTreeMap.getElem?_insert, Std.LawfulEqCmp.compare_eq_iff_eq]
    split_ifs with hr' hr
    · exact absurd (hr.trans hr'.symm) hne
    · rfl
    · rfl
    · rfl

theorem Drain.wake_wake (d : Drain) (now : Tick) : (d.wake now).wake now = d.wake now := by
  obtain ⟨interval, phase⟩ := d
  cases phase <;> rfl

namespace Scheduler

variable {s s' : Scheduler} {d e : Damage}

/-- Damage gets the verdict and the tasks that it would get if damage apart from it had not been
    taken in before. -/
theorem accept_after_apart (h : s.Plain) (apart : d.Apart e) (id id' : DamageId) :
    ((s.accept id d).2.accept id' e).1 = (s.accept id' e).1 ∧
      (s.accept id d).2.newTasks id' e = s.newTasks id' e := by
  refine accept_congr_of_uncapped ?_ h.uncapped (h.accept id d).uncapped (fun c hc => ?_) id'
  · obtain ⟨_, _, _, _, heq⟩ := s.accept_eq id d
    rw [heq]
  · have hnot : ¬ (d.world = e.world ∧ c.pos ∈ d.cells.map LostCell.pos) := by
      rintro ⟨hworld, hmem⟩
      obtain ⟨c', hc', heq⟩ := List.mem_map.1 hmem
      exact apart hworld c' hc' c hc heq
    rw [contains_accept s d h.uncapped, decide_eq_false hnot, Bool.and_false, Bool.or_false]

/-- Taking in damage of different names that is apart makes shuffled schedulers of the two orders
    in which it may be taken in. -/
theorem shuffled_of_apart (h : s.Plain) {id id' : DamageId} (named : id ≠ id')
    (apart : d.Apart e) :
    ((s.accept id d).2.accept id' e).2.Shuffled ((s.accept id' e).2.accept id d).2 := by
  have hpacing : ∀ id d, (s.accept id d).2.pacing = s.pacing := fun id d => by
    obtain ⟨_, _, _, _, heq⟩ := s.accept_eq id d
    rw [heq]
  obtain ⟨-, htasks⟩ := accept_after_apart h apart id id'
  obtain ⟨-, htasks'⟩ := accept_after_apart h apart.symm id' id
  obtain ⟨hordered, hat⟩ := accept_ordered h.ordered id d
  obtain ⟨hordered', hat'⟩ := accept_ordered h.ordered id' e
  obtain ⟨-, hats⟩ := accept_ordered hordered id' e
  obtain ⟨-, hats'⟩ := accept_ordered hordered' id d
  refine
    { rest := ?_
      plain := (h.accept id d).accept id' e
      plain' := (h.accept id' e).accept id d
      pending := fun w a => ?_
      layers := fun y => ?_
      agenda := ?_ }
  · obtain ⟨_, _, hd⟩ := s.accept_rest d id
    obtain ⟨_, _, he⟩ := s.accept_rest e id'
    obtain ⟨_, _, hde⟩ := (s.accept id d).2.accept_rest e id'
    obtain ⟨_, _, hed⟩ := (s.accept id' e).2.accept_rest d id
    rw [hde, hed, htasks, htasks', hd, he]
    by_cases hnil : s.newTasks id d = []
    · simp only [hnil, if_true]
      rfl
    · by_cases hnil' : s.newTasks id' e = []
      · simp only [hnil, hnil', if_true, if_false]
        rfl
      · -- both wake the drain and open a record
        simp only [hnil, hnil', if_false, Drain.wake_wake]
        have hledger := @Ledger.register_comm s.ledger
          (s.openRecord id d (s.newTasks id d).length)
          (s.openRecord id' e (s.newTasks id' e).length) named
        exact congrArg (Scheduler.mk _ _ _ _ _ _ _ _ · _ _) hledger.symm
  · rw [contains_accept _ e (h.accept id d).uncapped, contains_accept _ d (h.accept id' e).uncapped,
      contains_accept s d h.uncapped, contains_accept s e h.uncapped, hpacing, hpacing,
      Bool.or_right_comm]
  · rw [hats, hats', hat, hat', htasks, htasks', List.append_assoc, List.append_assoc]
    refine (SameFor.refl _).append (SameFor.swap fun t ht u hu heq => named ?_)
    rw [← damage_of_mem_newTasks s id d (mem_tasksAt.1 ht).1, heq,
      damage_of_mem_newTasks s id' e (mem_tasksAt.1 hu).1]
  · simp only [accept_agenda]
    exact SameFor.refl _

/-! ## Taking in what waits -/

/-- The clock, the funnel and the speed do not decide how queues are interleaved. -/
theorem Shuffled.frame (h : s.Shuffled s') (clock : Clock) (funnel : Funnel) (speed : Speed) :
    Shuffled { s with clock, funnel, pacing := s.pacing.withSpeed speed }
      { s' with clock, funnel, pacing := s'.pacing.withSpeed speed } where
  rest := by
    obtain ⟨pending, layers, agenda, rfl⟩ := h.exists_eq
    rfl
  plain := ⟨h.plain.uncapped, h.plain.steady, h.plain.ordered, h.plain.sorted⟩
  plain' := ⟨h.plain'.uncapped, h.plain'.steady, h.plain'.ordered, h.plain'.sorted⟩
  pending := h.pending
  layers := h.layers
  agenda := h.agenda

theorem Shuffled.withSpeed (h : s.Shuffled s') (speed : Speed) :
    (s.withSpeed speed).Shuffled (s'.withSpeed speed) := by
  have hframe := h.frame s.clock s.funnel speed
  obtain ⟨pending, layers, agenda, rfl⟩ := h.exists_eq
  exact hframe

theorem Shuffled.send (h : s.Shuffled s') (p : Parcel) :
    (s.after (.send p)).Shuffled (s'.after (.send p)) := by
  have hframe := fun funnel => h.frame s.clock funnel s.pacing.speed
  obtain ⟨pending, layers, agenda, rfl⟩ := h.exists_eq
  simp only [Scheduler.after, Scheduler.send]
  cases s.funnel.send p.id p.damage with
  | error e => exact h
  | ok funnel => exact hframe funnel

theorem Shuffled.acceptAll (h : s.Shuffled s') (ps : List Parcel) :
    (s'.acceptAll ps).1 = (s.acceptAll ps).1 ∧ s'.intakeAll ps = s.intakeAll ps ∧
      (s.acceptAll ps).2.Shuffled (s'.acceptAll ps).2 := by
  induction ps generalizing s s' with
  | nil => exact ⟨rfl, rfl, h⟩
  | cons p rest ih =>
      have hclock : s'.clock = s.clock := by rw [h.rest]
      obtain ⟨hverdict, hone⟩ := h.accept p.id p.damage
      obtain ⟨hverdicts, hintakes, hrest⟩ := ih hone
      refine ⟨?_, ?_, hrest⟩
      · simp only [Scheduler.acceptAll, hverdict, hverdicts]
      · simp only [intakeAll, hverdict, hclock, hintakes]

/-- Shuffled schedulers take in the same of what waits, and are shuffled afterwards. -/
theorem Shuffled.received (h : s.Shuffled s') (clock : Clock) :
    ({ s' with clock } : Scheduler).takeIn.1 = ({ s with clock } : Scheduler).takeIn.1 ∧
      (s'.atIntake clock).intakeAll s'.funnel.waiting
        = (s.atIntake clock).intakeAll s.funnel.waiting ∧
      (s.received clock).Shuffled (s'.received clock) := by
  have hstart := h.frame clock s.funnel.drained s.pacing.speed
  obtain ⟨pending, layers, agenda, rfl⟩ := h.exists_eq
  exact Shuffled.acceptAll hstart s.funnel.waiting

/-! ## Releasing a layer -/

/-- The appointment that a task gets now where there is no jitter. -/
def steadily (s : Scheduler) (t : Task) : Appointment :=
  ⟨s.clock.now, t, 0, s.pacing.delay t.provenance t.height 0⟩

/-- Without jitter nothing is drawn, and each task gets the appointment that it would get alone. -/
theorem foldl_scheduleTask_of_steady (h : s.pacing.maxJitter.val = 0) (ts : List Task) :
    ts.foldl scheduleTask s = { s with agenda := s.agenda.plan (ts.map s.steadily) } := by
  induction ts generalizing s with
  | nil => rfl
  | cons t rest ih =>
      have hone : s.scheduleTask t
          = { s with agenda := s.agenda.schedule (s.steadily t).deadline t } := by
        rw [scheduleTask, Xoshiro.draw, if_pos h]
        rfl
      rw [List.foldl_cons, hone]
      exact ih h

end Scheduler

/-- Whether a drain releases anything depends on what waits only in so far as there must be a
    layer. -/
theorem Drain.poll_uniform (d : Drain) (now : Tick) :
    (∀ q, d.poll now q = (none, d, q)) ∨
    ((∀ q : LayerQueue, q.layers = [] → d.poll now q = (none, d.reset, q)) ∧
      ∀ (q : LayerQueue) (layer : Layer) (rest : List Layer), q.layers = layer :: rest →
        d.poll now q = (some layer, { d with phase := .draining (now + d.interval) }, ⟨rest⟩)) := by
  cases hphase : d.phase with
  | idle => exact Or.inl fun q => by simp [poll, hphase]
  | draining next =>
      by_cases hlt : now < next
      · exact Or.inl fun q => by simp [poll, hphase, hlt]
      · refine Or.inr ⟨fun q hq => ?_, fun q layer rest hq => ?_⟩ <;>
          simp [poll, hphase, hlt, LayerQueue.popLowest, hq, reset]

namespace Agenda

variable {a b : Agenda Task} {as as' : List Appointment}

/-- Of the tasks of any kind, those planned take the places that they would take if there were no
    others. -/
theorem filter_plan (h : a.Sorted) (test : Task → Bool) (as : List Appointment) :
    (a.plan as).entries.filter (fun e => test e.2)
      = ((⟨a.entries.filter fun e => test e.2⟩ : Agenda Task).plan
          (as.filter fun x => test x.task)).entries := by
  induction as generalizing a with
  | nil => rfl
  | cons x rest ih =>
      have hone := filter_schedule h (fun e => test e.2) x.deadline x.task
      refine (ih (h.schedule x.deadline x.task)).trans ?_
      rw [hone, List.filter_cons]
      split_ifs <;> rfl

/-- Planning for the same tasks of each damage in the same order. -/
theorem sameFor_plan (h : a.Sorted) (h' : b.Sorted)
    (hentries : SameFor (·.2.damage) a.entries b.entries)
    (has : SameFor (·.task.damage) as as') :
    SameFor (·.2.damage) (a.plan as).entries (b.plan as').entries := by
  intro id
  rw [filter_plan h' (·.damage = id), filter_plan h (·.damage = id), hentries id, has id]

end Agenda

namespace Scheduler

variable {s s' : Scheduler}

theorem release_of_steady {layer : Layer} {drain : Drain} {rest : LayerQueue}
    (h : s.pacing.maxJitter.val = 0)
    (hpoll : s.drain.poll s.clock.now s.layers = (some layer, drain, rest)) :
    s.release = (some ⟨layer.elevation, layer.tasks.length⟩,
      { s with drain, layers := rest, agenda := s.agenda.plan (layer.tasks.map s.steadily) }) := by
  rw [release, hpoll]
  exact congrArg (Prod.mk _)
    (@foldl_scheduleTask_of_steady { s with drain, layers := rest } h layer.tasks)

/-- Shuffled schedulers release layers at the same elevation with as many tasks, and are shuffled
    afterwards. -/
theorem Shuffled.release (h : s.Shuffled s') :
    s'.release.1 = s.release.1 ∧ s.release.2.Shuffled s'.release.2 := by
  have hlayers := h.plain.ordered.cases_of_sameFor h.plain'.ordered h.layers
  obtain ⟨pending, layers, agenda, rfl⟩ := h.exists_eq
  -- where nothing is released, at most the drain changes
  have hnothing : ∀ drain, s.drain.poll s.clock.now s.layers = (none, drain, s.layers) →
      s.drain.poll s.clock.now layers = (none, drain, layers) →
      ({ s with pending, layers, agenda } : Scheduler).release.1 = s.release.1 ∧
        s.release.2.Shuffled ({ s with pending, layers, agenda } : Scheduler).release.2 := by
    intro drain hpoll hpoll'
    have hrelease := (turn_of_poll_none hpoll).1
    have hrelease' := (@turn_of_poll_none { s with pending, layers, agenda } drain hpoll').1
    rw [hrelease, hrelease']
    exact ⟨rfl, rfl, ⟨h.plain.uncapped, h.plain.steady, h.plain.ordered, h.plain.sorted⟩,
      ⟨h.plain'.uncapped, h.plain'.steady, h.plain'.ordered, h.plain'.sorted⟩, h.pending, h.layers,
      h.agenda⟩
  rcases s.drain.poll_uniform s.clock.now with hnone | ⟨hempty, hsome⟩
  · exact hnothing _ (hnone _) (hnone _)
  · rcases hlayers with ⟨hnil, hnil'⟩ | ⟨layer, rest, layer', rest', hq, hq', hlevel, hsame, hrest⟩
    · exact hnothing _ (hempty _ hnil) (hempty _ hnil')
    · have hpoll' : ({ s with pending, layers, agenda } : Scheduler).drain.poll s.clock.now layers
          = _ := hsome layers layer' rest' hq'
      rw [release_of_steady h.plain.steady (hsome s.layers layer rest hq),
        release_of_steady h.plain'.steady hpoll']
      have hplan := Agenda.sameFor_plan h.plain.sorted h.plain'.sorted h.agenda
        (hsame.map s.steadily fun _ => rfl)
      refine ⟨by rw [hlevel, hsame.perm.length_eq],
        { rest := rfl
          plain := ⟨h.plain.uncapped, h.plain.steady, (h.plain.ordered.of_cons hq).1,
            h.plain.sorted.plan _⟩
          plain' := ⟨h.plain'.uncapped, h.plain'.steady, (h.plain'.ordered.of_cons hq').1,
            h.plain'.sorted.plan _⟩
          pending := h.pending
          layers := hrest
          agenda := hplan }⟩

/-- Shuffled schedulers release the same on a tick, and are shuffled when its firing begins. -/
theorem Shuffled.prepared (h : s.Shuffled s') (clock : Clock) :
    (s'.received clock).release.1 = (s.received clock).release.1 ∧
      (s.prepared clock).Shuffled (s'.prepared clock) :=
  (h.received clock).2.2.release

/-! ## Firing what is due -/

theorem Plain.dueTasks_eq (h : s.Plain) :
    s.dueTasks = (s.agenda.entries.filter (·.1 ≤ s.clock.now)).map Prod.snd := by
  rw [dueTasks, Agenda.due, (Agenda.takeWhile_eq_filter h.sorted).1]

theorem Plain.entries_poised (h : s.Plain) :
    s.poised.agenda.entries = s.agenda.entries.filter (s.clock.now < ·.1) :=
  (Agenda.takeWhile_eq_filter h.sorted).2

theorem Plain.poised (h : s.Plain) : s.poised.Plain :=
  ⟨h.uncapped, h.steady, h.ordered, h.sorted.later _⟩

theorem Plain.settleAll (h : s.Plain) (xs : List Shot) : (s.settleAll xs).Plain := by
  rw [settleAll_eq]
  exact ⟨h.uncapped, h.steady, h.ordered, h.sorted⟩

/-- Of each damage the same tasks are due, in the same order. -/
theorem Shuffled.dueTasks (h : s.Shuffled s') :
    SameFor Task.damage s.dueTasks s'.dueTasks := by
  have hclock : s'.clock = s.clock := by rw [h.rest]
  rw [h.plain.dueTasks_eq, h.plain'.dueTasks_eq, hclock]
  exact (h.agenda.filter _).map Prod.snd fun _ => rfl

/-- Where the tasks that are due come out the same on both grounds, shuffled schedulers fire the
    same for each damage, and are shuffled afterwards. -/
theorem Shuffled.fire {ω ω' : Type} [Ground ω] [Ground ω'] (h : s.Shuffled s') {world : ω}
    {world' : ω'} {out : Task → Outcome}
    (hout : (s.dueShots world).map (fun x => (x.task, x.outcome))
      = s.dueTasks.map fun t => (t, out t))
    (hout' : (s'.dueShots world').map (fun x => (x.task, x.outcome))
      = s'.dueTasks.map fun t => (t, out t)) :
    SameFor (·.task.damage) (s.dueShots world) (s'.dueShots world') ∧
      (s.poised.settleAll (s.dueShots world)).Shuffled
        (s'.poised.settleAll (s'.dueShots world')) := by
  have hfirings : SameFor (·.1.damage) (s.dueTasks.map fun t => (t, out t))
      (s'.dueTasks.map fun t => (t, out t)) := h.dueTasks.map _ fun _ => rfl
  have hplayed : s.dueShots world = s.poised.played (s.dueTasks.map fun t => (t, out t)) :=
    hout ▸ s.poised.shots_eq_played world s.dueTasks
  have hplayed' : s'.dueShots world' = s'.poised.played (s'.dueTasks.map fun t => (t, out t)) :=
    hout' ▸ s'.poised.shots_eq_played world' s'.dueTasks
  obtain ⟨hclock, hradius, hledger⟩ : s'.clock = s.clock ∧
      s'.radiusPerIntensity = s.radiusPerIntensity ∧ s'.ledger = s.ledger := by
    rw [h.rest]
    exact ⟨rfl, rfl, rfl⟩
  obtain ⟨hsame, hsettled⟩ :=
    @played_interleaved s.poised s'.poised _ _ hclock hradius hledger hfirings
  rw [← hplayed, ← hplayed'] at hsame hsettled
  generalize s.dueShots world = xs, s'.dueShots world' = xs' at hsame hsettled
  refine ⟨hsame,
    { rest := ?_
      plain := h.plain.poised.settleAll xs
      plain' := h.plain'.poised.settleAll xs'
      pending := fun w a => ?_
      layers := ?_
      agenda := ?_ }⟩
  · obtain ⟨pending, layers, agenda, rfl⟩ := h.exists_eq
    rw [settleAll_eq, settleAll_eq] at hsettled ⊢
    exact congrArg (Scheduler.mk _ _ _ _ _ _ _ _ · _ _) hsettled
  · have hcells : (w, a) ∈ xs'.map (fun x => x.task.cell) ↔ (w, a) ∈ xs.map fun x => x.task.cell :=
      (hsame.perm.map fun x => x.task.cell).mem_iff
    rw [contains_settleAll, contains_settleAll, decide_eq_decide.2 hcells]
    exact congrArg (· && _) (h.pending w a)
  · rw [settleAll_eq, settleAll_eq]
    exact h.layers
  · rw [settleAll_eq, settleAll_eq]
    show SameFor _ s.poised.agenda.entries s'.poised.agenda.entries
    rw [h.plain.entries_poised, h.plain'.entries_poised, hclock]
    exact h.agenda.filter _

/-! ## Reachable schedulers -/

/-- Under settings without a cap and without jitter every state that a run reaches is plain. -/
theorem plain_run {settings : Regeneration} {seed : Tick}
    (fresh : Scheduler.new settings seed = .ok s) (steady : settings.maxJitter.val = 0)
    (uncapped : settings.maxPending.val = 0) (deeds : List Deed) : (s.run deeds).Plain where
  uncapped := by
    obtain ⟨-, -, -, -, -, hcap⟩ := Scheduler.new_eq fresh
    induction deeds using List.reverseRecOn with
    | nil => exact hcap.trans (if_pos uncapped)
    | append_singleton deeds d ih => rw [run_concat, cap_after, ih]
  steady := by
    rw [pacing_run fresh]
    exact steady
  ordered := ordered_run fresh deeds
  sorted := (planned_run fresh deeds).sorted

end Scheduler

end Mend
