import Mathlib.Algebra.Order.BigOperators.Group.List
import Mathlib.Algebra.Order.Ring.Nat
import Mend.Journal
import Mend.Proofs.Run.Steering
import Mend.Proofs.Scheduler.History

set_option autoImplicit false

/-! # A run is a loop of ticks

A run sits out pauses, applies the speed that was asked for and counts what it sees as it goes. Its
rounds come to no more than this: tick, with the speed that was asked for last, and see whether to
go on (`TickLoop.next`, `TickLoop.ends?`). The loop has no switches. It keeps the reports of its
ticks and the moves that its observer made, and what a run has in its controls and counters is read
off from these (`TickLoop.asRun`). One round of the run is one step of the loop
(`TickLoop.round_asRun`), and the induction over the rounds says where the run ends
(`runs_as_tick_loop`). -/

namespace Mend

open Controls (Move)

/-! ## The loop -/

/-- A loop of ticks in progress. -/
structure TickLoop (ω η ο : Type) where
  scheduler : Scheduler
  world : ω
  listener : η
  observer : ο
  interval : Tick
  maxTicks : Tick
  /-- The moves made up to the last tick. -/
  earlier : List Move
  /-- The moves made since then. -/
  since : List Move
  /-- The reports of the ticks, in order. -/
  reports : List TickReport

namespace TickLoop

variable {ω η ο : Type}

/-- A loop that has not ticked yet, with the moves made before. -/
def start (scheduler : Scheduler) (world : ω) (listener : η) (observer : ο)
    (interval maxTicks : Tick) (before : List Move) : TickLoop ω η ο :=
  ⟨scheduler, world, listener, observer, interval, maxTicks, [], before, []⟩

/-- All moves so far. -/
def moves (l : TickLoop ω η ο) : List Move := l.earlier ++ l.since

/-- The speed asked for last since the last tick. -/
def asked (l : TickLoop ω η ο) : Option Speed := Controls.lastSpeed? l.since

/-- What the moves come to. Only a speed asked for since the last tick is still to be applied. -/
def controls (l : TickLoop ω η ο) : Controls :=
  ((Controls.start l.interval l.maxTicks).moves l.moves).asking l.asked

/-- What the observer can reach. -/
def reach (l : TickLoop ω η ο) : Reach ω := ⟨l.world, l.scheduler.funnel, l.controls⟩

/-- The scheduler at the speed asked for. -/
def sped (l : TickLoop ω η ο) : Scheduler :=
  match l.asked with
  | none => l.scheduler
  | some speed => l.scheduler.withSpeed speed

/-- The loop after some moves. -/
def moved (l : TickLoop ω η ο) (ms : List Move) : TickLoop ω η ο :=
  { l with since := l.since ++ ms }

/-- The loop after its observer has acted and made some moves. -/
def acted (l : TickLoop ω η ο) (ms : List Move) (a : ο × Reach ω) : TickLoop ω η ο :=
  { l with
    observer := a.1
    world := a.2.world
    scheduler := { l.scheduler with funnel := a.2.funnel } }.moved ms

/-- The loop after a tick whose report the observer has not seen. -/
def ticked (l : TickLoop ω η ο) (t : Scheduler.Ticked ω η) : TickLoop ω η ο :=
  { l with
    scheduler := t.scheduler
    world := t.world
    listener := t.listener
    earlier := l.moves
    since := []
    reports := l.reports ++ [t.report] }

/-- A number summed over the reports. -/
def total (l : TickLoop ω η ο) (f : TickReport → Nat) : Nat := (l.reports.map f).sum

/-- The run that stands where the loop stands. -/
def asRun (l : TickLoop ω η ο) : Run ω η ο where
  scheduler := l.scheduler
  world := l.world
  listener := l.listener
  observer := l.observer
  controls := l.controls
  ticks := Capped.clamp l.reports.length
  tally :=
    { restored := Capped.clamp (l.total fun r => r.tally.restored.val)
      skipped := Capped.clamp (l.total fun r => r.tally.skipped.val)
      failed := Capped.clamp (l.total fun r => r.tally.failed.val) }
  completed := Capped.clamp (l.total fun r => r.completions.length)

section Steps

variable [Observer ο ω] [Steering ο ω] [Ground ω] [Listener η]

/-- The loop once its observer has acted while a pause held it. -/
def paused (l : TickLoop ω η ο) : TickLoop ω η ο :=
  l.acted (Steering.duringPause l.observer l.reach) (Observer.duringPause l.observer l.reach)

/-- The loop once a pause, if there is one, is over: it is stopped, or it is resumed. -/
def held (l : TickLoop ω η ο) : TickLoop ω η ο :=
  if l.controls.holds then
    if .stop ∈ l.paused.moves then l.paused else l.paused.moved [.resume]
  else l

/-- The loop once its observer has seen the report of a tick. -/
def shown (l : TickLoop ω η ο) (report : TickReport) : TickLoop ω η ο :=
  l.acted (Steering.afterTick l.observer report l.reach)
    (Observer.afterTick l.observer report l.reach)

/-- One more tick. -/
def next (l : TickLoop ω η ο) : Except SchedulerError (TickLoop ω η ο) :=
  match l.held.sped.tick l.held.world l.held.listener with
  | .error e => .error e
  | .ok t => .ok ((l.held.ticked t).shown t.report)

/-- The loop after so many more ticks. -/
def after : Nat → TickLoop ω η ο → Except SchedulerError (TickLoop ω η ο)
  | 0, l => .ok l
  | k + 1, l =>
    match l.next with
    | .error e => .error e
    | .ok l => after k l

/-- Whether the last tick was the last one: nothing is left to do, or the limit is reached. -/
def over? (mode : RunMode) (l : TickLoop ω η ο) : Option Ending :=
  if mode = .untilIdle ∧ l.reports ≠ [] ∧ l.scheduler.isIdle = true ∧
      Observer.hasPendingWork ω l.observer = false then
    some .idle
  else if 0 < l.maxTicks.val ∧ l.reports.length = l.maxTicks.val then some .maxTicks
  else none

/-- Whether there is no further tick, and if so why, and what is left. A stop that was asked for
    counts if the last tick was not the last one anyway. -/
def ends? (mode : RunMode) (l : TickLoop ω η ο) : Option (Ending × TickLoop ω η ο) :=
  match l.over? mode with
  | some ending => some (ending, l)
  | none => if .stop ∈ l.held.moves then some (.stopped, l.held) else none

/-- The loop does not end before its tick number `k`. -/
def LastsUntil (mode : RunMode) (k : Nat) (l : TickLoop ω η ο) : Prop :=
  ∀ j < k, ∃ l', l.after j = .ok l' ∧ l'.ends? mode = none

/-- The loop ends after `k` ticks and no sooner. -/
structure EndsAfter (mode : RunMode) (k : Nat) (l : TickLoop ω η ο) (ending : Ending)
    (last : TickLoop ω η ο) : Prop where
  ends : ∃ l', l.after k = .ok l' ∧ l'.ends? mode = some (ending, last)
  first : l.LastsUntil mode k

/-- The loop has not ended after `k` ticks, and then the clock cannot go on. -/
structure RunsOut (mode : RunMode) (k : Nat) (l : TickLoop ω η ο) : Prop where
  lasts : l.LastsUntil mode (k + 1)
  overflow : l.after (k + 1) = .error (.clock .tickOverflow)

end Steps

/-! ## What the steps do to the run -/

section AsRun

variable (l : TickLoop ω η ο)

theorem asRun_start (scheduler : Scheduler) (world : ω) (listener : η) (observer : ο)
    (interval maxTicks : Tick) (before : List Move) :
    (start scheduler world listener observer interval maxTicks before).asRun
      = Run.start scheduler world listener observer
        ((Controls.start interval maxTicks).moves before) := by
  rw [Controls.moves_start before]
  rfl

/-- Moves that are made act on the controls. -/
theorem controls_moved (ms : List Move) : (l.moved ms).controls = l.controls.moves ms := by
  rw [controls, controls, Controls.moves_asking, ← Controls.moves_append, asked, asked,
    ← Controls.lastSpeed?_append, moves, moves, List.append_assoc]
  rfl

theorem observed_asRun {ms : List Move} {a : ο × Reach ω}
    (h : a.2.controls = l.controls.moves ms) : l.asRun.observed a = (l.acted ms a).asRun := by
  have hcontrols : a.2.controls = (l.acted ms a).controls := by
    rw [acted, controls_moved]
    exact h
  rw [Run.observed, hcontrols]
  rfl

theorem stopRequested_controls : l.controls.stopRequested = decide (.stop ∈ l.moves) :=
  (Controls.stopRequested_moves _ _).trans (Bool.false_or _)

theorem maxTicks_controls : l.controls.maxTicks = l.maxTicks := Controls.maxTicks_moves _ _

theorem sped_clock : l.sped.clock = l.scheduler.clock := by
  unfold sped
  split <;> rfl

theorem applySpeed_asRun : l.asRun.applySpeed
    = { l.asRun with scheduler := l.sped, controls := l.controls.asking none } := by
  have hrequest : l.asRun.controls.takeSpeed = (l.asked, l.controls.asking none) := rfl
  rw [Run.applySpeed, hrequest, sped]
  cases hasked : l.asked with
  | none =>
      have hnone : l.controls.asking none = l.controls := by
        rw [controls, hasked]
        rfl
      rw [hnone]
      rfl
  | some speed => rfl

/-- What a tick adds to the counters of the run are the sums with the report of the tick. -/
theorem asRun_ticked (t : Scheduler.Ticked ω η) : (l.ticked t).asRun =
    { l.asRun.applySpeed with
      scheduler := t.scheduler
      world := t.world
      listener := t.listener
      ticks := l.asRun.applySpeed.ticks + 1
      tally := l.asRun.applySpeed.tally.plus t.report.tally
      completed := l.asRun.applySpeed.completed + Capped.clamp t.report.completions.length } := by
  have htotal : ∀ f, (Capped.clamp ((l.ticked t).total f) : Tick)
      = Capped.clamp (l.total f) + Capped.clamp (f t.report) := by
    intro f
    rw [Capped.clamp_add_clamp, total, ticked, List.map_append, List.sum_append]
    rfl
  have hticks : (Capped.clamp (l.ticked t).reports.length : Tick)
      = Capped.clamp l.reports.length + 1 := by
    rw [ticked, List.length_append]
    exact (Capped.clamp_add_clamp _ 1).symm
  have hcontrols : (l.ticked t).controls = l.controls.asking none := by
    have hmoves : (l.ticked t).moves = l.moves := List.append_nil _
    rw [controls, hmoves]
    rfl
  rw [applySpeed_asRun, asRun, hcontrols, hticks, htotal, htotal, htotal, htotal]
  rfl

variable [Observer ο ω]

/-- As long as the limit has not been passed, the run is over where the loop is. -/
theorem ending?_asRun {mode : RunMode} (hne : l.reports ≠ [])
    (hlimit : l.maxTicks.val = 0 ∨ l.reports.length ≤ l.maxTicks.val) :
    l.asRun.ending? mode = l.over? mode := by
  have hmax := l.maxTicks.le_max
  have hreached : l.asRun.controls.limitReached l.asRun.ticks
      = decide (0 < l.maxTicks.val ∧ l.reports.length = l.maxTicks.val) := by
    show (decide (0 < l.controls.maxTicks.val) && decide (l.controls.maxTicks ≤ _)) = _
    rw [maxTicks_controls, ← Bool.decide_and, decide_eq_decide, Capped.le_def]
    show 0 < l.maxTicks.val ∧ l.maxTicks.val ≤ min l.reports.length _ ↔ _
    omega
  rw [Run.ending?, over?, hreached]
  simp [hne, and_assoc, asRun]

theorem not_reached_of_over? {mode : RunMode} (h : l.over? mode = none) :
    ¬ (0 < l.maxTicks.val ∧ l.reports.length = l.maxTicks.val) := by
  unfold over? at h
  split_ifs at h with hidle hreached
  exact hreached

variable [Steering ο ω]

theorem sitOutPause_asRun : l.asRun.sitOutPause = l.held.asRun := by
  have hpaused : l.asRun.observed (Observer.duringPause l.asRun.observer l.asRun.reach)
      = l.paused.asRun := l.observed_asRun (Steering.controls_duringPause l.observer l.reach)
  have hstop : l.paused.asRun.controls.stopRequested = decide (.stop ∈ l.paused.moves) :=
    l.paused.stopRequested_controls
  rw [Run.sitOutPause, held, hpaused]
  by_cases hholds : l.controls.holds = true
  · rw [if_pos hholds, if_pos (show l.asRun.controls.holds = true from hholds)]
    by_cases hin : .stop ∈ l.paused.moves
    · simp [hstop, hin]
    · have hresumed : l.paused.controls.resume = (l.paused.moved [.resume]).controls :=
        (l.paused.controls_moved [.resume]).symm
      simp only [hstop, hin, decide_false, if_false, Bool.false_eq_true]
      show { l.paused.asRun with controls := l.paused.controls.resume } = _
      rw [hresumed]
      rfl
  · rw [if_neg hholds, if_neg (show ¬ l.asRun.controls.holds = true from hholds)]

theorem tick_asRun [Ground ω] [Listener η] : l.asRun.applySpeed.tick
    = match l.sped.tick l.world l.listener with
      | .error e => .error e
      | .ok t => .ok ((l.ticked t).shown t.report).asRun := by
  have hsame : l.asRun.applySpeed.scheduler = l.sped ∧ l.asRun.applySpeed.world = l.world ∧
      l.asRun.applySpeed.listener = l.listener := by
    rw [applySpeed_asRun]
    exact ⟨rfl, rfl, rfl⟩
  obtain ⟨hscheduler, hworld, hlistener⟩ := hsame
  rw [Run.tick, hscheduler, hworld, hlistener]
  cases l.sped.tick l.world l.listener with
  | error e => rfl
  | ok t =>
      have hshown : (l.ticked t).asRun.observed (Observer.afterTick (l.ticked t).asRun.observer
          t.report (l.ticked t).asRun.reach) = ((l.ticked t).shown t.report).asRun :=
        (l.ticked t).observed_asRun (Steering.controls_afterTick _ _ _)
      rw [asRun_ticked] at hshown
      exact congrArg Except.ok hshown

end AsRun

/-! ## One round of the run -/

section Rounds

variable [Observer ο ω] [Steering ο ω] {mode : RunMode} {l l' last : TickLoop ω η ο}

/-- Waiting for a pause to end leaves the clock and the reports alone. -/
theorem held_keeps (l : TickLoop ω η ο) : l.held.scheduler.clock = l.scheduler.clock ∧
    l.held.reports = l.reports ∧ l.held.maxTicks = l.maxTicks := by
  unfold held
  split_ifs <;> exact ⟨rfl, rfl, rfl⟩

theorem seen_held {seen : ο → List TickReport} (hseen : Observer.Remembers ω seen)
    (l : TickLoop ω η ο) : seen l.held.observer = seen l.observer := by
  unfold held
  split_ifs
  · exact hseen.duringPause _ _
  · exact hseen.duringPause _ _
  · rfl

theorem eq_of_ends? {ending : Ending} (h : l.ends? mode = some (ending, last)) :
    last = l ∨ last = l.held := by
  unfold ends? at h
  split at h
  · cases h
    exact Or.inl rfl
  · split_ifs at h
    cases h
    exact Or.inr rfl

variable [Ground ω] [Listener η]

theorem next_eq_ok (h : l.next = .ok l') :
    ∃ t, l.held.sped.tick l.held.world l.held.listener = .ok t ∧
      l' = (l.held.ticked t).shown t.report := by
  unfold next at h
  split at h
  · cases h
  · next t ht =>
    cases h
    exact ⟨t, ht, rfl⟩

/-- A tick adds one report and moves the clock by one tick. -/
theorem next_spec (h : l.next = .ok l') : l'.reports.length = l.reports.length + 1 ∧
    l'.maxTicks = l.maxTicks ∧ l'.scheduler.clock.now.val = l.scheduler.clock.now.val + 1 := by
  obtain ⟨t, ht, rfl⟩ := next_eq_ok h
  obtain ⟨hclock, hreports, hmax⟩ := l.held_keeps
  obtain ⟨htick, hnow⟩ := Scheduler.now_of_tick ht
  refine ⟨?_, hmax, ?_⟩
  · show (l.held.reports ++ [t.report]).length = _
    rw [hreports, List.length_append, List.length_singleton]
  · show t.scheduler.clock.now.val = _
    rw [hnow, htick, sped_clock, hclock]

/-- Nothing but the end of the clock keeps a tick from running. -/
theorem next_error {e : SchedulerError} (h : l.next = .error e) :
    e = .clock .tickOverflow ∧ l.scheduler.clock.ticksLeft = 0 := by
  unfold next at h
  rcases l.held.sped.tick_cases l.held.world l.held.listener with
    ⟨cause, hadvance, herror⟩ | ⟨clock, -, hok⟩
  · rw [herror] at h
    cases h
    have hlast := Clock.now_of_advance_error hadvance
    rw [sped_clock, l.held_keeps.1] at hlast
    cases cause
    exact ⟨rfl, by rw [Clock.ticksLeft, hlast]⟩
  · rw [hok] at h
    cases h

theorem tick_held (l : TickLoop ω η ο) :
    l.held.asRun.applySpeed.tick = match l.next with
      | .error e => .error e
      | .ok l' => .ok l'.asRun := by
  rw [tick_asRun, next]
  cases l.held.sped.tick l.held.world l.held.listener <;> rfl

theorem after_of_next {k : Nat} (hnext : l.next = .ok l') : l.after (k + 1) = l'.after k := by
  rw [after, hnext]

theorem after_succ_eq_ok {k : Nat} (h : l.after (k + 1) = .ok last) :
    ∃ l', l.next = .ok l' ∧ l'.after k = .ok last := by
  unfold after at h
  split at h
  · cases h
  · next l' hnext => exact ⟨l', hnext, h⟩

theorem lastsUntil_zero : l.LastsUntil mode 0 := fun j hj => absurd hj (Nat.not_lt_zero j)

/-- What does not end at once goes on as the loop after the next tick does. -/
theorem LastsUntil.of_next {k : Nat} (hon : l.ends? mode = none) (hnext : l.next = .ok l')
    (h : l'.LastsUntil mode k) : l.LastsUntil mode (k + 1) := by
  intro j hj
  cases j with
  | zero => exact ⟨l, rfl, hon⟩
  | succ j =>
      rw [after_of_next hnext]
      exact h j (Nat.lt_of_succ_lt_succ hj)

theorem EndsAfter.of_next {k : Nat} {ending : Ending} (hon : l.ends? mode = none)
    (hnext : l.next = .ok l') (h : l'.EndsAfter mode k ending last) :
    l.EndsAfter mode (k + 1) ending last where
  ends := by
    rw [after_of_next hnext]
    exact h.ends
  first := h.first.of_next hon hnext

theorem RunsOut.of_next {k : Nat} (hon : l.ends? mode = none) (hnext : l.next = .ok l')
    (h : l'.RunsOut mode k) : l.RunsOut mode (k + 1) where
  lasts := h.lasts.of_next hon hnext
  overflow := by
    rw [after_of_next hnext]
    exact h.overflow

theorem runsOut_zero {e : SchedulerError} (hon : l.ends? mode = none) (hnext : l.next = .error e) :
    l.RunsOut mode 0 where
  lasts j hj := by
    obtain rfl := Nat.lt_one_iff.1 hj
    exact ⟨l, rfl, hon⟩
  overflow := by rw [after, hnext, (next_error hnext).1]

/-- A round of a run whose last tick was not the last one ends it at once or after one more tick,
    or the next tick fails, or the run goes on. -/
theorem round_asRun (hover : l.over? mode = none)
    (hlimit : l.maxTicks.val = 0 ∨ l.reports.length < l.maxTicks.val) :
    (∃ k ending last, l.EndsAfter mode k ending last ∧
      l.asRun.round mode = (.ended ending, last.asRun)) ∨
    (∃ e r, l.ends? mode = none ∧ l.next = .error e ∧ l.asRun.round mode = (.failed e, r)) ∨
    (∃ l', l.ends? mode = none ∧ l.next = .ok l' ∧ l'.over? mode = none ∧
      l.asRun.round mode = (.goesOn, l'.asRun)) := by
  have hstop : l.held.asRun.controls.stopRequested = decide (.stop ∈ l.held.moves) :=
    l.held.stopRequested_controls
  rw [Run.round, sitOutPause_asRun]
  by_cases hin : .stop ∈ l.held.moves
  · -- the stop was asked for before this tick
    have hends : l.ends? mode = some (.stopped, l.held) := by simp only [ends?, hover, if_pos hin]
    refine Or.inl ⟨0, .stopped, l.held, ⟨⟨l, rfl, hends⟩, lastsUntil_zero⟩, ?_⟩
    simp only [hstop, hin, decide_true, if_true]
  have hon : l.ends? mode = none := by simp only [ends?, hover, if_neg hin]
  simp only [hstop, hin, decide_false, Bool.false_eq_true, if_false, tick_held]
  cases hnext : l.next with
  | error e => exact Or.inr (Or.inl ⟨e, _, hon, rfl, rfl⟩)
  | ok l' =>
      obtain ⟨hlength, hmax, -⟩ := next_spec hnext
      have hne : l'.reports ≠ [] := List.ne_nil_of_length_pos (by omega)
      have hending : l'.asRun.ending? mode = l'.over? mode :=
        l'.ending?_asRun hne (by rw [hmax, hlength]; omega)
      simp only [hending]
      cases hover' : l'.over? mode with
      | some ending =>
          have hends : l'.ends? mode = some (ending, l') := by simp only [ends?, hover']
          have hnow : l'.EndsAfter mode 0 ending l' := ⟨⟨l', rfl, hends⟩, lastsUntil_zero⟩
          exact Or.inl ⟨1, ending, l', hnow.of_next hon hnext, rfl⟩
      | none => exact Or.inr (Or.inr ⟨l', hon, rfl, hover', rfl⟩)

/-- With one round more than the clock has ticks left, the rounds come to where the loop ends,
    unless the clock runs out before that. -/
theorem rounds_asRun (mode : RunMode) (n : Nat) (l : TickLoop ω η ο)
    (hleft : l.scheduler.clock.ticksLeft = n)
    (hlimit : l.maxTicks.val = 0 ∨ l.reports.length < l.maxTicks.val)
    (hover : l.over? mode = none) :
    (∃ k ending last, l.EndsAfter mode k ending last ∧
      Run.rounds mode (n + 1) l.asRun = (.ok ending, last.asRun)) ∨
    (l.RunsOut mode n ∧
      (Run.rounds mode (n + 1) l.asRun).1 = .error (.clock .tickOverflow)) := by
  induction n using Nat.strongRecOn generalizing l with
  | ind n ih =>
      rw [Run.rounds]
      rcases round_asRun hover hlimit with
        ⟨k, ending, last, hends, hround⟩ | ⟨e, r, hon, hnext, hround⟩ | ⟨l', hon, hnext, hover', hround⟩
      · exact Or.inl ⟨k, ending, last, hends, by rw [hround]⟩
      · obtain ⟨rfl, hzero⟩ := next_error hnext
        obtain rfl : n = 0 := hleft.symm.trans hzero
        exact Or.inr ⟨runsOut_zero hon hnext, by rw [hround]⟩
      · obtain ⟨hlength, hmax, hnow⟩ := next_spec hnext
        have hlast := l'.scheduler.clock.now.le_max
        obtain ⟨m, rfl⟩ : ∃ m, n = m + 1 := ⟨n - 1, by rw [Clock.ticksLeft] at hleft; omega⟩
        have hleft' : l'.scheduler.clock.ticksLeft = m := by
          rw [Clock.ticksLeft] at hleft ⊢
          omega
        have hlimit' : l'.maxTicks.val = 0 ∨ l'.reports.length < l'.maxTicks.val := by
          have hbelow := l'.not_reached_of_over? hover'
          rw [hmax] at hbelow ⊢
          omega
        rw [hround]
        rcases ih m (Nat.lt_succ_self m) l' hleft' hlimit' hover' with
          ⟨k, ending, last, hends, hrounds⟩ | ⟨hout, hrounds⟩
        · exact Or.inl ⟨k + 1, ending, last, hends.of_next hon hnext, hrounds⟩
        · exact Or.inr ⟨hout.of_next hon hnext, hrounds⟩

theorem after_spec {k : Nat} (h : l.after k = .ok l') :
    l'.reports.length = l.reports.length + k ∧
      l'.scheduler.clock.now.val = l.scheduler.clock.now.val + k := by
  induction k generalizing l with
  | zero =>
      cases h
      exact ⟨rfl, rfl⟩
  | succ k ih =>
      obtain ⟨between, hnext, hafter⟩ := after_succ_eq_ok h
      obtain ⟨hlength, -, hnow⟩ := next_spec hnext
      obtain ⟨hlength', hnow'⟩ := ih hafter
      omega

/-- The observer is shown the reports of the loop, in order. -/
theorem seen_after {seen : ο → List TickReport} (hseen : Observer.Remembers ω seen) {k : Nat}
    (h : l.after k = .ok l') :
    ∃ new, l'.reports = l.reports ++ new ∧ seen l'.observer = seen l.observer ++ new := by
  induction k generalizing l with
  | zero =>
      cases h
      exact ⟨[], (List.append_nil _).symm, (List.append_nil _).symm⟩
  | succ k ih =>
      obtain ⟨between, hnext, hafter⟩ := after_succ_eq_ok h
      obtain ⟨new, hreports, hnew⟩ := ih hafter
      obtain ⟨t, -, rfl⟩ := next_eq_ok hnext
      have hshown : seen ((l.held.ticked t).shown t.report).observer
          = seen l.observer ++ [t.report] := by
        rw [← seen_held hseen l]
        exact hseen.afterTick _ _ _
      have hkept : ((l.held.ticked t).shown t.report).reports = l.reports ++ [t.report] := by
        rw [← l.held_keeps.2.1]
        rfl
      rw [hshown, List.append_assoc] at hnew
      rw [hkept, List.append_assoc] at hreports
      exact ⟨[t.report] ++ new, hreports, hnew⟩

namespace EndsAfter

variable {k : Nat} {ending : Ending}

/-- Where the loop ends it has added one report for each tick, and the clock has counted them. -/
theorem spec (h : l.EndsAfter mode k ending last) :
    last.reports.length = l.reports.length + k ∧
      l.scheduler.clock.now.val + k ≤ 18446744073709551615 := by
  obtain ⟨l', hafter, hends⟩ := h.ends
  obtain ⟨hlength, hnow⟩ := after_spec hafter
  have hreports : last.reports = l'.reports := by
    rcases eq_of_ends? hends with rfl | rfl
    · rfl
    · exact l'.held_keeps.2.1
  have hmax := l'.scheduler.clock.now.le_max
  rw [hreports]
  omega

theorem seen_eq {seen : ο → List TickReport} (h : l.EndsAfter mode k ending last)
    (hseen : Observer.Remembers ω seen) :
    ∃ new, last.reports = l.reports ++ new ∧ seen last.observer = seen l.observer ++ new := by
  obtain ⟨l', hafter, hends⟩ := h.ends
  obtain ⟨new, hreports, hnew⟩ := seen_after hseen hafter
  rcases eq_of_ends? hends with rfl | rfl
  · exact ⟨new, hreports, hnew⟩
  · exact ⟨new, l'.held_keeps.2.1.trans hreports, (seen_held hseen l').trans hnew⟩

end EndsAfter

end Rounds

/-- What a run reports is what the loop comes to. Every number is summed over the reports, and cut
    off only at the largest number there is. -/
structure AddsUp (last : TickLoop ω η ο) (ending : Ending) (result : RunResult) : Prop where
  ending : result.ending = ending
  ticks : result.ticks.val = last.reports.length
  stats : result.stats = last.scheduler.stats
  counts : ∀ o, (result.tally.count o).val
    = min (last.total fun r => (r.tally.count o).val) 18446744073709551615
  /-- It takes more than 2³² + 1 ticks to cut off a count of cells. -/
  uncut : last.reports.length ≤ 4294967297 → ∀ o,
    (result.tally.count o).val = last.total fun r => (r.tally.count o).val
  completed : result.completed.val
    = min (last.total fun r => r.completions.length) 18446744073709551615

/-- A report counts less than 2³² cells. -/
theorem total_count_le (l : TickLoop ω η ο) (o : Outcome) :
    (l.total fun r => (r.tally.count o).val) ≤ l.reports.length * 4294967295 := by
  have hsum := List.sum_le_card_nsmul (l.reports.map fun r => (r.tally.count o).val) 4294967295
    (List.forall_mem_map.2 fun r _ => (r.tally.count o).le_max)
  rwa [List.length_map, Nat.nsmul_eq_mul] at hsum

theorem addsUp_asRun {last : TickLoop ω η ο} (h : last.reports.length ≤ 18446744073709551615)
    (ending : Ending) : last.AddsUp ending (last.asRun.result ending) := by
  have hcounts : ∀ o, ((last.asRun.result ending).tally.count o).val
      = min (last.total fun r => (r.tally.count o).val) 18446744073709551615 := by
    intro o
    cases o <;> rfl
  refine ⟨rfl, Nat.min_eq_left h, rfl, hcounts, fun hfew o => ?_, rfl⟩
  have hle := last.total_count_le o
  rw [hcounts o]
  omega

end TickLoop

/-- **A run is a loop of ticks.** Whatever moves its observer makes, a run comes to what is left
    when the loop ends, and its observer sees the reports of the loop. Only where the clock runs out
    before the loop ends does the run fail. -/
theorem runs_as_tick_loop {ω η ο : Type} [Ground ω] [Listener η] [Observer ο ω] [Steering ο ω]
    (scheduler : Scheduler) (world : ω) (listener : η) (observer : ο) (interval maxTicks : Tick)
    (before : List Move) (mode : RunMode) :
    let l := TickLoop.start scheduler world listener observer interval maxTicks before
    let ran := (Run.start scheduler world listener observer
      ((Controls.start interval maxTicks).moves before)).run mode
    (∃ k ending last, l.EndsAfter mode k ending last ∧ last.reports.length = k ∧
      (∃ result, ran.1 = .ok result ∧ last.AddsUp ending result) ∧ ran.2 = last.asRun ∧
      ∀ seen, Observer.Remembers ω seen → seen ran.2.observer = seen observer ++ last.reports) ∨
    (l.RunsOut mode scheduler.clock.ticksLeft ∧ ran.1 = .error ⟨.clock .tickOverflow⟩) := by
  intro l ran
  have hran : ran = l.asRun.run mode := by
    rw [TickLoop.asRun_start scheduler world listener observer interval maxTicks before]
  have hover : l.over? mode = none := by
    rw [TickLoop.over?, if_neg fun h => h.2.1 rfl, if_neg]
    rintro ⟨hpos, hzero⟩
    exact Nat.ne_of_lt hpos hzero
  have hlimit : l.maxTicks.val = 0 ∨ l.reports.length < l.maxTicks.val :=
    Nat.eq_zero_or_pos l.maxTicks.val
  have hrounds := TickLoop.rounds_asRun mode _ l rfl hlimit hover
  have hfuel : l.asRun.scheduler.clock.ticksLeft = l.scheduler.clock.ticksLeft := rfl
  rw [hran, Run.run, hfuel]
  rcases hrounds with ⟨k, ending, last, hends, hrounds⟩ | ⟨hout, hrounds⟩
  · obtain ⟨hlength, hclock⟩ := hends.spec
    replace hlength : last.reports.length = k := hlength.trans (Nat.zero_add k)
    rw [hrounds]
    refine Or.inl ⟨k, ending, last, hends, hlength,
      ⟨_, rfl, TickLoop.addsUp_asRun (by omega) ending⟩, rfl, fun seen hseen => ?_⟩
    obtain ⟨new, hnew, hseen⟩ := hends.seen_eq hseen
    obtain rfl : last.reports = new := hnew
    exact hseen
  · refine Or.inr ⟨hout, ?_⟩
    generalize Run.rounds mode (l.scheduler.clock.ticksLeft + 1) l.asRun = out at hrounds
    obtain ⟨outcome, r⟩ := out
    obtain rfl : outcome = _ := hrounds
    rfl

/-- An observer that works through a list: after each tick it makes some moves and sends some damage.
    It keeps the reports that it sees. -/
structure Foreman where
  plan : List (List Move × List Parcel)
  seen : List TickReport

namespace Foreman

/-- What is to be done next. -/
def todo (o : Foreman) : List Move × List Parcel := o.plan.headD ([], [])

/-- The funnel after a parcel was sent, unless it is closed. -/
def handIn (f : Funnel) (p : Parcel) : Funnel :=
  match f.send p.id p.damage with
  | .ok f => f
  | .error _ => f

instance {ω : Type} : Observer Foreman ω where
  afterTick o report reach :=
    (⟨o.plan.tail, o.seen ++ [report]⟩,
      { reach with
        funnel := o.todo.2.foldl handIn reach.funnel
        controls := reach.controls.moves o.todo.1 })
  hasPendingWork o := !o.plan.isEmpty
  duringPause o reach := (o, reach)

instance {ω : Type} : Steering Foreman ω where
  afterTick o _ _ := o.todo.1
  duringPause _ _ := []
  controls_afterTick _ _ _ := rfl
  controls_duringPause _ _ := rfl

theorem remembers {ω : Type} : Observer.Remembers ω Foreman.seen where
  afterTick _ _ _ := rfl
  duringPause _ _ := rfl

/-- Damage is sent after the first tick, and the stop is asked for after the fifth. -/
def shift : Foreman where
  plan := [([.pause, .speed 2, .resume, .speed 200], [quarried 1 [(0, 0), (0, 1)]]), ([], []),
    ([], []), ([.interval 0, .interval 9], []), ([.stop], [])]
  seen := []

end Foreman

/-- On the fifth tick the last cell comes out, the limit is reached, and the stop is asked for. A run
    until idle ends because it is idle, and one until stopped because of the limit. -/
theorem runs_as_tick_loop_all_at_once :
    let settings := { Regeneration.default with naturalBase := 0, perLevel := 0, maxJitter := 0 }
    ∃ s, Scheduler.new settings 7 = .ok s ∧ ∀ mode,
      let before : List Move := [.pause, .speed 3]
      let l := TickLoop.start s (Atlas.empty []) Journal.empty Foreman.shift 5 5 before
      let ran := (Run.start s (Atlas.empty []) Journal.empty Foreman.shift
        ((Controls.start 5 5).moves before)).run mode
      let ending := if mode = .untilIdle then Ending.idle else Ending.maxTicks
      ∃ last result, l.EndsAfter mode 5 ending last ∧ ran.1 = .ok result ∧
        last.AddsUp ending result ∧ ran.2.observer.seen = last.reports ∧
        result.stats.speed = 10 ∧ result.tally.failed.val = 2 ∧ result.completed.val = 1 := by
  intro settings
  obtain ⟨s, hs⟩ : ∃ s, Scheduler.new settings 7 = .ok s := ⟨_, rfl⟩
  refine ⟨s, hs, fun mode => ?_⟩
  intro before l ran ending
  have hout : ran.1.toOption.map (fun result => (result.ending, result.ticks.val,
      result.stats.speed, result.tally.failed.val, result.completed.val))
      = some (ending, 5, 10, 2, 1) := by
    cases hs
    cases mode <;> decide +kernel
  rcases runs_as_tick_loop s (Atlas.empty []) Journal.empty Foreman.shift 5 5 before mode with
    ⟨k, reason, last, hends, hlength, ⟨result, hresult, hadds⟩, -, hseen⟩ | ⟨-, herror⟩
  · replace hresult : ran.1 = .ok result := hresult
    rw [hresult] at hout
    obtain ⟨hending, hticks, hspeed, hfailed, hcompleted⟩ : _ ∧ _ ∧ _ ∧ _ ∧ _ := by
      simpa only [Except.toOption, Option.map_some, Option.some.injEq, Prod.mk.injEq] using hout
    obtain rfl : reason = ending := hadds.ending.symm.trans hending
    obtain rfl : k = 5 := hlength.symm.trans (hadds.ticks.symm.trans hticks)
    exact ⟨last, result, hends, hresult, hadds, hseen Foreman.seen Foreman.remembers, hspeed,
      hfailed, hcompleted⟩
  · replace herror : ran.1 = .error _ := herror
    rw [herror] at hout
    cases hout

end Mend
