import Mend.Proofs.Queue.Deadlines
import Mend.Proofs.Queue.Elevations
import Mend.Proofs.Scheduler.History

set_option autoImplicit false

/-! # From the layers to the agenda: what is released on each tick

A task passes through three hands: it is admitted into the layers with others of its damage, it
gets an appointment on the agenda when its layer is released, and it fires. `Scheduler.admissions`
lists the groups of tasks that a run admits, `Scheduler.turns` what the release phase of each of
its ticks finds and does, and `Scheduler.appointed` the appointments made in these phases.

`Flow` singles out the properties of a state and these records that admitting damage and a tick's
release and firing keep, and that look at nothing but the layers, the drain and the agenda. Such a
property holds at every moment of a run (`Flow.run`, `Flow.passes`), also in the middle of a tick,
while damage is being taken in. -/

namespace Mend

/-- A task that was put on the agenda. -/
structure Appointment where
  /-- The tick on which its layer was released. -/
  made : Tick
  task : Task
  jitter : Tick
  /-- How many ticks later it is to fire. -/
  delay : Tick
deriving DecidableEq

/-- The tick on which the task is to fire. -/
def Appointment.deadline (a : Appointment) : Tick := a.made + a.delay

/-- The appointment is one that is made on the given tick under the given pacing: its jitter is
    drawn, and the delay rule gives its delay. -/
structure Appointment.Follows (a : Appointment) (now : Tick) (pacing : Pacing) : Prop where
  made_eq : a.made = now
  drawn : ∃ random : Xoshiro, a.jitter = Capped.clamp (random.draw pacing.maxJitter.val).1
  delay_eq : a.delay = pacing.delay a.task.provenance a.task.height a.jitter

/-- What the release phase of a tick finds and does. -/
structure Turn where
  tick : Tick
  /-- The layers that wait when the phase begins. -/
  found : LayerQueue
  release : Option Release
  /-- The appointments made for the tasks of the released layer, in order. -/
  appointments : List Appointment
  /-- The layers that wait when the phase is over. -/
  left : LayerQueue

/-- The agenda with some appointments put down one after the other. -/
def Agenda.plan (a : Agenda Task) (as : List Appointment) : Agenda Task :=
  as.foldl (fun a x => a.schedule x.deadline x.task) a

namespace Agenda

variable {a : Agenda Task}

/-- Putting down appointments adds an entry for each of them and nothing else. -/
theorem entries_plan (as : List Appointment) :
    (a.plan as).entries.Perm (a.entries ++ as.map fun x => (x.deadline, x.task)) := by
  induction as generalizing a with
  | nil => simp [plan]
  | cons x rest ih =>
      refine (@ih (a.schedule x.deadline x.task)).trans ?_
      simpa [schedule] using (insertEntry_perm x.deadline x.task a.entries).append_right
        (rest.map fun x => (x.deadline, x.task))

theorem mem_entries_plan {as : List Appointment} {e : Tick × Task} :
    e ∈ (a.plan as).entries ↔ e ∈ a.entries ∨ ∃ x ∈ as, e = (x.deadline, x.task) := by
  rw [(entries_plan as).mem_iff, List.mem_append, List.mem_map]
  simp only [eq_comm]

theorem items_plan (as : List Appointment) :
    (a.plan as).items.Perm (a.items ++ as.map Appointment.task) := by
  have hitems := (a.entries_plan as).map Prod.snd
  rwa [List.map_append, List.map_map] at hitems

end Agenda

/-! ## One release phase -/

/-- A drain releases nothing because it is idle or its next release is not due, or it finds nothing
    to release and goes idle, or it releases the lowest layer. -/
theorem Drain.poll_cases (d : Drain) (now : Tick) (q : LayerQueue) :
    (d.phase = .idle ∧ d.poll now q = (none, d, q)) ∨
    (∃ next, d.phase = .draining next ∧ now < next ∧ d.poll now q = (none, d, q)) ∨
    (∃ next, d.phase = .draining next ∧ next ≤ now ∧ q.layers = [] ∧
      d.poll now q = (none, { d with phase := .idle }, q)) ∨
    (∃ next layer rest, d.phase = .draining next ∧ next ≤ now ∧ q.layers = layer :: rest ∧
      d.poll now q = (some layer, { d with phase := .draining (now + d.interval) }, ⟨rest⟩)) := by
  cases hphase : d.phase with
  | idle => exact Or.inl ⟨rfl, by simp [poll, hphase]⟩
  | draining next =>
      by_cases hlt : now < next
      · exact Or.inr (Or.inl ⟨next, rfl, hlt, by simp [poll, hphase, hlt]⟩)
      · have hle := Capped.not_lt.1 hlt
        cases hq : q.layers with
        | nil =>
            exact Or.inr (Or.inr (Or.inl ⟨next, rfl, hle, rfl, by
              simp [poll, hphase, hlt, LayerQueue.popLowest, hq]⟩))
        | cons layer rest =>
            exact Or.inr (Or.inr (Or.inr ⟨next, layer, rest, rfl, hle, rfl, by
              simp [poll, hphase, hlt, LayerQueue.popLowest, hq]⟩))

namespace Scheduler

/-- The appointments that putting the given tasks on the agenda makes. -/
def appointments (s : Scheduler) : List Task → List Appointment
  | [] => []
  | t :: rest =>
    let jitter : Tick := Capped.clamp (s.random.draw s.pacing.maxJitter.val).1
    ⟨s.clock.now, t, jitter, s.pacing.delay t.provenance t.height jitter⟩ ::
      (s.scheduleTask t).appointments rest

/-- What the release phase does in the given state. -/
def turn (s : Scheduler) : Turn :=
  let (layer, drain, layers) := s.drain.poll s.clock.now s.layers
  { tick := s.clock.now
    found := s.layers
    release := s.release.1
    appointments := { s with drain, layers }.appointments (layer.elim [] Layer.tasks)
    left := s.release.2.layers }

theorem foldl_scheduleTask_plan (s : Scheduler) (ts : List Task) :
    ∃ random, ts.foldl scheduleTask s
      = { s with random, agenda := s.agenda.plan (s.appointments ts) } := by
  induction ts generalizing s with
  | nil => exact ⟨s.random, rfl⟩
  | cons t rest ih =>
      obtain ⟨random, heq⟩ := ih (s.scheduleTask t)
      exact ⟨random, heq⟩

@[simp] theorem map_task_appointments (s : Scheduler) (ts : List Task) :
    (s.appointments ts).map Appointment.task = ts := by
  induction ts generalizing s with
  | nil => rfl
  | cons t rest ih => rw [appointments, List.map_cons, ih]

theorem follows_of_mem_appointments {s : Scheduler} {ts : List Task} {a : Appointment}
    (ha : a ∈ s.appointments ts) : a.Follows s.clock.now s.pacing := by
  induction ts generalizing s with
  | nil => exact absurd ha List.not_mem_nil
  | cons t rest ih =>
      rcases List.mem_cons.1 ha with rfl | ha
      · exact ⟨rfl, ⟨s.random, rfl⟩, rfl⟩
      · exact @ih (s.scheduleTask t) ha

theorem turn_of_poll_none {s : Scheduler} {drain : Drain}
    (hpoll : s.drain.poll s.clock.now s.layers = (none, drain, s.layers)) :
    s.release = (none, { s with drain }) ∧
      s.turn = ⟨s.clock.now, s.layers, none, [], s.layers⟩ := by
  have hrelease : s.release = (none, { s with drain }) := by rw [release, hpoll]
  exact ⟨hrelease, by rw [turn, hpoll, hrelease]; rfl⟩

theorem turn_of_poll_some {s : Scheduler} {layer : Layer} {drain : Drain} {rest : LayerQueue}
    (hpoll : s.drain.poll s.clock.now s.layers = (some layer, drain, rest)) :
    ∃ random as, s.release = (some ⟨layer.elevation, layer.tasks.length⟩,
        { s with drain, layers := rest, random, agenda := s.agenda.plan as }) ∧
      s.turn = ⟨s.clock.now, s.layers, some ⟨layer.elevation, layer.tasks.length⟩, as, rest⟩ ∧
      as.map Appointment.task = layer.tasks ∧
      ∀ a ∈ as, a.Follows s.clock.now s.pacing := by
  obtain ⟨random, hfold⟩ :=
    foldl_scheduleTask_plan { s with drain, layers := rest } layer.tasks
  have hrelease : s.release = (some ⟨layer.elevation, layer.tasks.length⟩,
      layer.tasks.foldl scheduleTask { s with drain, layers := rest }) := by
    rw [release, hpoll]
  rw [hfold] at hrelease
  exact ⟨random, _, hrelease, by rw [turn, hpoll, hrelease]; rfl, map_task_appointments _ _,
    fun a ha => @follows_of_mem_appointments { s with drain, layers := rest } _ a ha⟩

/-- The release phase releases nothing and changes at most the drain, or it releases the lowest
    layer, whose tasks get appointments. -/
theorem turn_cases (s : Scheduler) :
    (∃ drain, s.release = (none, { s with drain }) ∧
      s.turn = ⟨s.clock.now, s.layers, none, [], s.layers⟩) ∨
    (∃ layer drain rest random as, s.layers.layers = layer :: rest ∧
      s.release = (some ⟨layer.elevation, layer.tasks.length⟩,
        { s with drain, layers := ⟨rest⟩, random, agenda := s.agenda.plan as }) ∧
      s.turn = ⟨s.clock.now, s.layers, some ⟨layer.elevation, layer.tasks.length⟩, as, ⟨rest⟩⟩ ∧
      as.map Appointment.task = layer.tasks ∧
      ∀ a ∈ as, a.Follows s.clock.now s.pacing) := by
  rcases s.drain.poll_cases s.clock.now s.layers with
    ⟨-, hpoll⟩ | ⟨_, -, -, hpoll⟩ | ⟨_, -, -, -, hpoll⟩ | ⟨_, layer, rest, -, -, hq, hpoll⟩
  · exact Or.inl ⟨_, turn_of_poll_none hpoll⟩
  · exact Or.inl ⟨_, turn_of_poll_none hpoll⟩
  · exact Or.inl ⟨_, turn_of_poll_none hpoll⟩
  · obtain ⟨random, as, hturn⟩ := turn_of_poll_some hpoll
    exact Or.inr ⟨layer, _, rest, random, as, hq, hturn⟩

theorem release_agenda (s : Scheduler) :
    s.release.2.agenda = s.agenda.plan s.turn.appointments := by
  rcases s.turn_cases with ⟨_, hrelease, hturn⟩ | ⟨_, _, _, _, _, -, hrelease, hturn, -⟩
  · rw [hrelease, hturn]
    rfl
  · rw [hrelease, hturn]

/-- The release phase gives appointments to what leaves the layers. -/
theorem tasks_turn (s : Scheduler) :
    s.turn.found.tasks = s.turn.appointments.map Appointment.task ++ s.turn.left.tasks := by
  rcases s.turn_cases with ⟨_, -, hturn⟩ | ⟨layer, _, rest, _, _, hq, -, hturn, hmap, -⟩
  · rw [hturn]
    rfl
  · rw [hturn, hmap, LayerQueue.tasks, hq]
    rfl

/-! ## The release phases of a run -/

/-- The scheduler on a tick once intake is over and before a layer is released. -/
def received (s : Scheduler) (clock : Clock) : Scheduler :=
  ((s.atIntake clock).acceptAll s.funnel.waiting).2

/-- The release phase of a deed: there is one on each tick that runs. -/
def turnsOn (s : Scheduler) : Deed → List Turn
  | @Deed.tick _ _ _ _ _ _ => match s.clock.advance with
    | .ok clock => [(s.received clock).turn]
    | .error _ => []
  | .submit _ | .send _ | .setSpeed _ => []

/-- The release phases of a run. -/
def turns (s : Scheduler) (deeds : List Deed) : List Turn := gather turnsOn s deeds

/-- The appointments made in a run. -/
def appointed (s : Scheduler) (deeds : List Deed) : List Appointment :=
  (s.turns deeds).flatMap Turn.appointments

/-- The groups of tasks that taking in several parcels adds, one for each parcel. -/
def admitAll (s : Scheduler) : List Parcel → List (List Task)
  | [] => []
  | p :: rest => s.newTasks p.id p.damage :: (s.accept p.id p.damage).2.admitAll rest

/-- The groups of tasks that a deed adds. -/
def admissionsOn (s : Scheduler) : Deed → List (List Task)
  | .submit p => [s.newTasks p.id p.damage]
  | @Deed.tick _ _ _ _ _ _ => match s.clock.advance with
    | .ok clock => (s.atIntake clock).admitAll s.funnel.waiting
    | .error _ => []
  | .send _ | .setSpeed _ => []

/-- The groups of tasks that a run adds, one for each entry of its intake. -/
def admissions (s : Scheduler) (deeds : List Deed) : List (List Task) := gather admissionsOn s deeds

@[simp] theorem acceptAll_clock (s : Scheduler) (ps : List Parcel) :
    (s.acceptAll ps).2.clock = s.clock := by
  obtain ⟨_, _, _, _, heq⟩ := s.acceptAll_eq ps
  rw [heq]

@[simp] theorem received_clock (s : Scheduler) (clock : Clock) :
    (s.received clock).clock = clock :=
  acceptAll_clock _ _

@[simp] theorem received_agenda (s : Scheduler) (clock : Clock) :
    (s.received clock).agenda = s.agenda := by
  obtain ⟨_, _, _, _, heq⟩ := (s.atIntake clock).acceptAll_eq s.funnel.waiting
  rw [received, heq]
  rfl

@[simp] theorem received_pacing (s : Scheduler) (clock : Clock) :
    (s.received clock).pacing = s.pacing := by
  obtain ⟨_, _, _, _, heq⟩ := (s.atIntake clock).acceptAll_eq s.funnel.waiting
  rw [received, heq]
  rfl

theorem prepared_agenda (s : Scheduler) (clock : Clock) :
    (s.prepared clock).agenda = s.agenda.plan (s.received clock).turn.appointments := by
  rw [← s.received_agenda clock]
  exact (s.received clock).release_agenda

/-! ## The three kinds of deeds -/

/-- A deed that takes in nothing and runs no tick: damage is sent, the speed changes, or the clock
    cannot move. -/
structure Quiet (s : Scheduler) (d : Deed) : Prop where
  after_eq : ∃ funnel speed, s.after d = { s with funnel, pacing := s.pacing.withSpeed speed }
  turns : s.turnsOn d = []
  admissions : s.admissionsOn d = []
  intakes : s.intakesOn d = []
  fired : s.firedOn d = []

/-- A deed that runs a tick, on which the clock moves as given. -/
structure Ticks (s : Scheduler) (d : Deed) (clock : Clock) : Prop where
  moved : s.clock.advance = .ok clock
  turns : s.turnsOn d = [(s.received clock).turn]
  admissions : s.admissionsOn d = (s.atIntake clock).admitAll s.funnel.waiting
  intakes : s.intakesOn d = (s.atIntake clock).intakeAll s.funnel.waiting
  after_eq : ∃ (ω : Type) (_ : Ground ω) (world : ω),
    s.firedOn d = (s.prepared clock).dueShots world ∧
      s.after d = (s.prepared clock).poised.settleAll ((s.prepared clock).dueShots world)

theorem ticks_of_advance {ω η : Type} [Ground ω] [Listener η] {s : Scheduler} {clock : Clock}
    (hclock : s.clock.advance = .ok clock) (world : ω) (listener : η) :
    s.Ticks (.tick world listener) clock where
  moved := hclock
  turns := by rw [turnsOn, hclock]
  admissions := by rw [admissionsOn, hclock]
  intakes := intakesOn_tick hclock world listener
  after_eq := ⟨ω, _, world, firedOn_tick hclock world listener, after_tick hclock world listener⟩

theorem deed_cases (s : Scheduler) (d : Deed) :
    (∃ p, d = .submit p) ∨ s.Quiet d ∨ ∃ clock, s.Ticks d clock := by
  cases d with
  | submit p => exact Or.inl ⟨p, rfl⟩
  | send p =>
      obtain ⟨funnel, hafter⟩ := s.after_send p
      exact Or.inr (Or.inl ⟨⟨funnel, s.speed, hafter⟩, rfl, rfl, rfl, rfl⟩)
  | setSpeed speed => exact Or.inr (Or.inl ⟨⟨s.funnel, speed, rfl⟩, rfl, rfl, rfl, rfl⟩)
  | tick world listener =>
      cases hclock : s.clock.advance with
      | ok clock => exact Or.inr (Or.inr ⟨clock, ticks_of_advance hclock world listener⟩)
      | error e =>
          obtain ⟨hafter, hintakes, hfired⟩ := tick_error hclock world listener
          exact Or.inr (Or.inl ⟨⟨s.funnel, s.speed, hafter⟩, by rw [turnsOn, hclock],
            by rw [admissionsOn, hclock], hintakes, hfired⟩)

theorem cap_after (s : Scheduler) (d : Deed) : (s.after d).cap = s.cap := by
  rcases s.deed_cases d with ⟨p, rfl⟩ | hquiet | ⟨clock, hticks⟩
  · obtain ⟨_, _, _, _, heq⟩ := s.accept_eq p.id p.damage
    rw [after, heq]
  · obtain ⟨_, _, hafter⟩ := hquiet.after_eq
    rw [hafter]
  · obtain ⟨_, _, _, -, hafter⟩ := hticks.after_eq
    obtain ⟨_, _, _, _, _, _, heq⟩ := s.prepared_eq clock
    rw [hafter, settleAll_eq]
    simp only [Scheduler.poised, heq]

namespace Ticks

variable {s : Scheduler} {d : Deed} {clock : Clock}

theorem clock_eq (h : s.Ticks d clock) : (s.after d).clock = clock := by
  obtain ⟨_, _, _, -, hafter⟩ := h.after_eq
  rw [hafter, settleAll_eq]
  exact s.prepared_clock clock

theorem layers_eq (h : s.Ticks d clock) : (s.after d).layers = (s.received clock).turn.left := by
  obtain ⟨_, _, _, -, hafter⟩ := h.after_eq
  rw [hafter, settleAll_eq]
  rfl

theorem pacing_eq (h : s.Ticks d clock) : (s.after d).pacing = s.pacing := by
  obtain ⟨_, _, _, -, hafter⟩ := h.after_eq
  obtain ⟨_, _, _, _, _, _, heq⟩ := s.prepared_eq clock
  rw [hafter, settleAll_eq]
  simp only [poised, heq]

end Ticks

end Scheduler

/-- The release phase `x` is that of a tick of `s` which leaves `r`: the report speaks of it, the
    layers stay as it leaves them, and its appointments go on the agenda, from which what is due is
    then taken. -/
structure Turn.Reported {ω η : Type} (x : Turn) (s : Scheduler) (r : Scheduler.Ticked ω η) :
    Prop where
  tick : x.tick = r.report.tick
  release : x.release = r.report.release
  left : x.left = r.scheduler.layers
  /-- Each task that leaves the layers gets one appointment. -/
  handed : x.found.tasks = x.appointments.map Appointment.task ++ x.left.tasks
  agenda : r.scheduler.agenda = (s.agenda.plan x.appointments).later r.report.tick
  /-- The agenda gains an entry for each appointment and nothing else. -/
  planned : (s.agenda.plan x.appointments).entries.Perm
    (s.agenda.entries ++ x.appointments.map fun a => (a.deadline, a.task))

namespace Scheduler

theorem turnsOn_tick {ω η : Type} [Ground ω] [Listener η] {s : Scheduler} {world : ω}
    {listener : η} {r : Ticked ω η} (h : s.tick world listener = .ok r) :
    ∃ x : Turn, s.turnsOn (.tick world listener) = [x] ∧ x.Reported s r := by
  rcases s.tick_cases world listener with ⟨e, -, herror⟩ | ⟨clock, hclock, hok⟩
  · rw [h] at herror
    cases herror
  · rw [h] at hok
    cases hok
    refine ⟨_, (ticks_of_advance hclock world listener).turns, ?_, rfl, ?_, tasks_turn _, ?_,
      s.agenda.entries_plan _⟩
    · exact congrArg Clock.now (s.received_clock clock)
    · rw [settleAll_eq]
      rfl
    · rw [settleAll_eq, ← prepared_agenda]
      show (s.prepared clock).agenda.later (s.prepared clock).clock.now = _
      rw [s.prepared_clock clock]

/-! ## The ticks of the release phases -/

theorem turns_cons (s : Scheduler) (d : Deed) (rest : List Deed) :
    s.turns (d :: rest) = s.turnsOn d ++ (s.after d).turns rest :=
  rfl

theorem appointed_cons (s : Scheduler) (d : Deed) (rest : List Deed) :
    s.appointed (d :: rest)
      = (s.turnsOn d).flatMap Turn.appointments ++ (s.after d).appointed rest :=
  List.flatMap_append

/-- A deed moves the clock to the tick of its release phase, if it has one. -/
theorem clock_after (s : Scheduler) (d : Deed) :
    (s.turnsOn d = [] ∧ (s.after d).clock.now = s.clock.now) ∨
    ∃ s' : Scheduler, s.turnsOn d = [s'.turn] ∧ s'.clock.now = (s.after d).clock.now ∧
      (s.after d).clock.now.val = s.clock.now.val + 1 := by
  rcases s.deed_cases d with ⟨p, rfl⟩ | hquiet | ⟨clock, hticks⟩
  · exact Or.inl ⟨rfl, congrArg Clock.now (s.accept_clock _ _)⟩
  · obtain ⟨_, _, hafter⟩ := hquiet.after_eq
    exact Or.inl ⟨hquiet.turns, by rw [hafter]⟩
  · refine Or.inr ⟨s.received clock, hticks.turns, ?_, ?_⟩
    · rw [hticks.clock_eq]
      exact congrArg Clock.now (s.received_clock clock)
    · rw [hticks.clock_eq]
      exact Clock.now_of_advance hticks.moved

/-- The ticks of the release phases of a run ascend, from behind the tick on which it starts up to
    the tick on which it ends. -/
theorem turns_ascend (s : Scheduler) (deeds : List Deed) :
    (s.turns deeds).Pairwise (·.tick.val < ·.tick.val) ∧
      s.clock.now.val ≤ (s.run deeds).clock.now.val ∧
      ∀ x ∈ s.turns deeds, s.clock.now.val < x.tick.val ∧
        x.tick.val ≤ (s.run deeds).clock.now.val := by
  induction deeds generalizing s with
  | nil => exact ⟨.nil, Nat.le_refl _, by simp [turns, gather]⟩
  | cons d rest ih =>
      obtain ⟨hpairwise, hend, hticks⟩ := ih (s.after d)
      have hrun : s.run (d :: rest) = (s.after d).run rest := rfl
      rw [turns_cons, hrun]
      rcases s.clock_after d with ⟨hnil, hclock⟩ | ⟨s', hone, hx, hclock⟩
      · rw [hnil, List.nil_append, ← hclock]
        exact ⟨hpairwise, hend, hticks⟩
      · -- this phase comes one tick after the start, those of the other deeds later still
        have htick : s'.turn.tick = (s.after d).clock.now := hx
        rw [hone, List.singleton_append, List.pairwise_cons, List.forall_mem_cons, htick]
        refine ⟨⟨fun y hy => (hticks y hy).1, hpairwise⟩, by omega, by omega, fun y hy => ?_⟩
        have := hticks y hy
        omega

/-- There is one release phase on each tick of a run that starts on tick 0. -/
theorem ticks_turns {s : Scheduler} (hstart : s.clock = Clock.start) (deeds : List Deed) :
    (s.turns deeds).map (·.tick.val) = List.range' 1 (s.run deeds).clock.now.val := by
  -- from the right, as the range grows at its end
  induction deeds using List.reverseRecOn with
  | nil =>
      rw [run, List.foldl_nil, hstart]
      rfl
  | append_singleton deeds d ih =>
      rw [run_concat, turns, gather_concat, List.map_append, ← turns, ih]
      rcases (s.run deeds).clock_after d with ⟨hnil, hclock⟩ | ⟨s', hone, hnow, hclock⟩
      · rw [hnil, hclock, List.map_nil, List.append_nil]
      · have htick : s'.turn.tick = ((s.run deeds).after d).clock.now := hnow
        rw [hone, List.map_singleton, htick, hclock, List.range'_concat, Nat.one_mul, Nat.add_comm]

theorem follows_turn (s : Scheduler) {a : Appointment} (ha : a ∈ s.turn.appointments) :
    a.Follows s.turn.tick s.pacing := by
  rcases s.turn_cases with ⟨_, -, hturn⟩ | ⟨_, _, _, _, _, -, -, hturn, -, has⟩
  · rw [hturn] at ha
    exact absurd ha List.not_mem_nil
  · rw [hturn] at ha ⊢
    exact has a ha

theorem exists_of_mem_turns {s : Scheduler} {deeds : List Deed} {x : Turn}
    (hx : x ∈ s.turns deeds) : ∃ s' : Scheduler, x = s'.turn := by
  induction deeds generalizing s with
  | nil => exact absurd hx List.not_mem_nil
  | cons d rest ih =>
      rw [turns_cons, List.mem_append] at hx
      rcases hx with hx | hx
      · rcases s.clock_after d with ⟨hnil, -⟩ | ⟨s', hone, -⟩
        · exact absurd (hnil ▸ hx) List.not_mem_nil
        · exact ⟨s', List.mem_singleton.1 (hone ▸ hx)⟩
      · exact ih hx

/-- The appointments of a run are made while it lasts. -/
theorem made_of_mem_appointed {s : Scheduler} {deeds : List Deed} {a : Appointment}
    (ha : a ∈ s.appointed deeds) :
    s.clock.now.val < a.made.val ∧ a.made.val ≤ (s.run deeds).clock.now.val := by
  obtain ⟨x, hx, ha⟩ := List.mem_flatMap.1 ha
  obtain ⟨s', rfl⟩ := exists_of_mem_turns hx
  rw [(s'.follows_turn ha).made_eq]
  exact (s.turns_ascend deeds).2.2 _ hx

/-- A fresh scheduler stands at tick 0, drains at the interval and delays by the rule that the
    settings describe. -/
theorem new_pace {settings : Regeneration} {seed : Tick} {s : Scheduler}
    (h : Scheduler.new settings seed = .ok s) :
    s.clock = Clock.start ∧ s.drain = Drain.start settings.layerInterval.recap ∧
      s.pacing = settings.pacing := by
  unfold Scheduler.new at h
  split at h
  · cases h
  · cases h
    exact ⟨rfl, rfl, rfl⟩

end Scheduler

/-! ## Properties of the flow of tasks -/

/-- `J gs ts xs n s` is a property of the flow of tasks: of the groups admitted, the release phases
    and the firings so far, the tick `n` of the next release phase, and the layers, the drain and
    the agenda of the scheduler. It is kept when a parcel is taken in, when a layer is released and
    what is due fires, and when other parts of the scheduler change. -/
structure Flow
    (J : List (List Task) → List Turn → List Shot → Nat → Scheduler → Prop) : Prop where
  accept : ∀ {gs ts xs n s}, J gs ts xs n s → s.clock.now.val ≤ n → ∀ p : Parcel,
    J (gs ++ [s.newTasks p.id p.damage]) ts xs n (s.accept p.id p.damage).2
  turn : ∀ {gs ts xs n s}, J gs ts xs n s → s.clock.now.val = n →
    ∀ {ω : Type} [Ground ω] (world : ω),
      J gs (ts ++ [s.turn]) (xs ++ s.release.2.dueShots world) (n + 1) s.release.2.poised
  frame : ∀ {gs ts xs n s s'}, J gs ts xs n s → s'.layers = s.layers → s'.drain = s.drain →
    s'.agenda = s.agenda → s.clock.now.val ≤ s'.clock.now.val → J gs ts xs n s'

/-- The moments of a run of the deeds `before` and then `after`: between them, or, where the first
    deed of `after` is a tick, in the middle of its intake. `s.Passes before after gs m` says that
    `m` is the state at such a moment and `gs` lists the groups admitted until then. -/
inductive Scheduler.Passes (s : Scheduler) :
    List Deed → List Deed → List (List Task) → Scheduler → Prop where
  | between (before after : List Deed) :
      Passes s before after (s.admissions before) (s.run before)
  | within {ω η : Type} [Ground ω] [Listener η] (before : List Deed) (world : ω) (listener : η)
      (after : List Deed) {clock : Clock} (moved : (s.run before).clock.advance = .ok clock)
      {taken rest : List Parcel} (split : (s.run before).funnel.waiting = taken ++ rest) :
      Passes s before (.tick world listener :: after)
        (s.admissions before ++ ((s.run before).atIntake clock).admitAll taken)
        (((s.run before).atIntake clock).acceptAll taken).2

namespace Flow

open Scheduler

variable {J : List (List Task) → List Turn → List Shot → Nat → Scheduler → Prop}
  {gs : List (List Task)} {ts : List Turn} {xs : List Shot} {n : Nat} {s : Scheduler}

theorem acceptAll (hJ : Flow J) (h : J gs ts xs n s) (hn : s.clock.now.val ≤ n)
    (ps : List Parcel) : J (gs ++ s.admitAll ps) ts xs n (s.acceptAll ps).2 := by
  induction ps generalizing gs s with
  | nil => rwa [admitAll, List.append_nil]
  | cons p rest ih =>
      have hrest := ih (hJ.accept h hn p) (by rwa [accept_clock])
      rwa [List.append_assoc] at hrest

/-- Taking in some of what is waiting, once the clock has moved. -/
theorem intake (hJ : Flow J) (h : J gs ts xs (s.clock.now.val + 1) s) {clock : Clock}
    (hclock : s.clock.advance = .ok clock) (ps : List Parcel) :
    J (gs ++ (s.atIntake clock).admitAll ps) ts xs clock.now.val
      ((s.atIntake clock).acceptAll ps).2 := by
  have hnow := Clock.now_of_advance hclock
  have hstart : J gs ts xs clock.now.val (s.atIntake clock) := by
    rw [hnow]
    exact hJ.frame h rfl rfl rfl (show s.clock.now.val ≤ clock.now.val by omega)
  exact hJ.acceptAll hstart (Nat.le_refl _) ps

theorem after (hJ : Flow J) (h : J gs ts xs (s.clock.now.val + 1) s) (d : Deed) :
    J (gs ++ s.admissionsOn d) (ts ++ s.turnsOn d) (xs ++ s.firedOn d)
      ((s.after d).clock.now.val + 1) (s.after d) := by
  rcases s.deed_cases d with ⟨p, rfl⟩ | hquiet | ⟨clock, hticks⟩
  · have hone := hJ.accept h (Nat.le_succ _) p
    rw [turnsOn, firedOn, List.append_nil, List.append_nil, Scheduler.after, accept_clock]
    exact hone
  · obtain ⟨funnel, speed, hafter⟩ := hquiet.after_eq
    rw [hquiet.admissions, hquiet.turns, hquiet.fired, List.append_nil, List.append_nil,
      List.append_nil, hafter]
    exact hJ.frame h rfl rfl rfl (Nat.le_refl _)
  · -- a tick takes in what waits, releases and fires; settling touches nothing that `J` looks at
    obtain ⟨ω, _, world, hfired, hafter⟩ := hticks.after_eq
    have hreceived : J _ ts xs clock.now.val (s.received clock) :=
      hJ.intake h hticks.moved s.funnel.waiting
    have hturn := hJ.turn hreceived
      (congrArg (fun c : Clock => c.now.val) (s.received_clock clock)) world
    rw [hticks.clock_eq, hticks.admissions, hticks.turns, hfired, hafter, settleAll_eq]
    exact hJ.frame hturn rfl rfl rfl (Nat.le_refl _)

theorem run (hJ : Flow J) {settings : Regeneration} {seed : Tick}
    (fresh : Scheduler.new settings seed = .ok s) (h : J [] [] [] 1 s) (deeds : List Deed) :
    J (s.admissions deeds) (s.turns deeds) (s.fired deeds) ((s.run deeds).clock.now.val + 1)
      (s.run deeds) := by
  induction deeds using List.reverseRecOn with
  | nil =>
      have hstart : (s.run []).clock = Clock.start := (new_pace fresh).1
      rw [hstart]
      exact h
  | append_singleton deeds d ih =>
      rw [run_concat, admissions, gather_concat, turns, gather_concat, fired, gather_concat]
      exact hJ.after ih d

theorem passes (hJ : Flow J) {settings : Regeneration} {seed : Tick}
    (fresh : Scheduler.new settings seed = .ok s) (h : J [] [] [] 1 s)
    {before after : List Deed} {m : Scheduler} (hm : s.Passes before after gs m) :
    J gs (s.turns before) (s.fired before) ((s.run before).clock.now.val + 1) m := by
  have hbefore := hJ.run fresh h before
  cases hm with
  | between => exact hbefore
  | @within _ _ _ _ _ _ _ _ clock moved taken _ _ =>
      have hintake := hJ.intake hbefore moved taken
      rwa [Clock.now_of_advance moved] at hintake

end Flow

end Mend
