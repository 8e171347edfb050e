import Mend.Journal
import Mend.Scenario.Script
import Mend.Proofs.Scheduler.Draining

set_option autoImplicit false

/-! # A scheduler that is left alone drains in time

What a reachable scheduler holds says by when it has nothing left to do (`Scheduler.drainTime`), and
a run until idle ends by then (`drained_in_time`). A run does nothing to its scheduler that is not
one of the deeds: `Run.Underway` names the deeds that its rounds come to, and each round adds one
tick to them. So the clock, which bounds the number of rounds, does not end the run before the
scheduler is idle. -/

namespace Mend

/-- Nothing in the controls holds a run back. -/
structure Controls.Unhindered (c : Controls) : Prop where
  running : c.paused = false
  unstopped : c.stopRequested = false
  unlimited : c.maxTicks.val = 0

/-- Observers that are calm, and stay so, send nothing, have nothing more to send, and leave the run
    unhindered. To the ground they may do anything, and they may ask for any speed. -/
structure Observer.Calm {ο : Type} (ω : Type) [Observer ο ω] (calm : ο → Prop) : Prop where
  stays : ∀ o report (reach : Reach ω), calm o → calm (Observer.afterTick o report reach).1
  sendsNothing : ∀ o report (reach : Reach ω), calm o →
    (Observer.afterTick o report reach).2.funnel = reach.funnel
  unhindered : ∀ o report (reach : Reach ω), calm o → reach.controls.Unhindered →
    (Observer.afterTick o report reach).2.controls.Unhindered
  noPendingWork : ∀ o, calm o → Observer.hasPendingWork ω o = false

namespace Script

/-- Clearing fire sends nothing and leaves the blasts to come. -/
theorem Stage.foldl_cleanUp (done : List Completion) (s : Stage) :
    (done.foldl Stage.cleanUp s).script.cues = s.script.cues ∧
      (done.foldl Stage.cleanUp s).funnel = s.funnel := by
  induction done generalizing s with
  | nil => exact ⟨rfl, rfl⟩
  | cons c rest ih =>
      have hone : (s.cleanUp c).script.cues = s.script.cues ∧ (s.cleanUp c).funnel = s.funnel := by
        unfold Stage.cleanUp
        split <;> exact ⟨rfl, rfl⟩
      obtain ⟨hcues, hfunnel⟩ := ih (s.cleanUp c)
      exact ⟨hcues.trans hone.1, hfunnel.trans hone.2⟩

theorem Stage.detonateDue_of_empty {s : Stage} (h : s.script.cues = Agenda.empty) (tick : Tick) :
    s.detonateDue tick = s := by
  have hdrain : s.script.cues.drain tick = ([], s.script.cues) := by rw [h]; rfl
  rw [Stage.detonateDue, hdrain]
  rfl

/-- A script without blasts to come only clears fire. -/
theorem Stage.afterTick_of_empty {s : Stage} (h : s.script.cues = Agenda.empty)
    (report : TickReport) :
    (s.afterTick report).script.cues = Agenda.empty ∧ (s.afterTick report).funnel = s.funnel := by
  obtain ⟨hcues, hfunnel⟩ := Stage.foldl_cleanUp report.completions s
  unfold Stage.afterTick
  split
  · rw [Stage.detonateDue_of_empty (hcues.trans h)]
    exact ⟨hcues.trans h, hfunnel⟩
  · rw [Stage.detonateDue_of_empty h]
    exact ⟨h, rfl⟩

/-- A script without blasts to come is calm. -/
theorem calm : Observer.Calm Atlas fun s : Script => s.cues = Agenda.empty where
  stays s report reach h :=
    (Stage.afterTick_of_empty (s := ⟨s, reach.world, reach.funnel⟩) h report).1
  sendsNothing s report reach h :=
    (Stage.afterTick_of_empty (s := ⟨s, reach.world, reach.funnel⟩) h report).2
  unhindered _ _ _ _ hcontrols := hcontrols
  noPendingWork s h := by
    show (!s.cues.isEmpty) = false
    rw [h]
    rfl

end Script

namespace Run

variable {ω η ο : Type} {calm : ο → Prop} {s : Scheduler} {more : List Deed} {r : Run ω η ο}

/-- A run that has done some deeds to the scheduler it started from, none of which hands anything
    in. -/
structure Underway (calm : ο → Prop) (s : Scheduler) (more : List Deed) (r : Run ω η ο) : Prop where
  controls : r.controls.Unhindered
  observer : calm r.observer
  scheduler : r.scheduler = s.run more
  quiet : handedIn more = []
  ticks : r.ticks.val = ticksIn more

namespace Underway

theorem start {o : ο} {c : Controls} (world : ω) (listener : η) (ho : calm o)
    (hc : c.Unhindered) : (Run.start s world listener o c).Underway calm s [] :=
  ⟨hc, ho, rfl, rfl, rfl⟩

theorem sitOutPause [Observer ο ω] (h : r.Underway calm s more) : r.sitOutPause = r := by
  have hholds : r.controls.holds = false := by rw [Controls.holds, h.controls.running]; rfl
  rw [Run.sitOutPause, hholds]
  rfl

/-- A speed that is applied is one more deed. -/
theorem applySpeed (h : r.Underway calm s more) :
    ∃ more', r.applySpeed.Underway calm s more' ∧ ticksIn more' = ticksIn more := by
  unfold Run.applySpeed
  split
  · exact ⟨more, h, rfl⟩
  · next speed controls htake =>
    obtain rfl : { r.controls with speedRequest := none } = controls := congrArg Prod.snd htake
    have hticks : ticksIn (more ++ [.setSpeed speed]) = ticksIn more :=
      ticksIn_append more [.setSpeed speed]
    have hquiet : handedIn (more ++ [.setSpeed speed]) = [] := by
      rw [handedIn_append, h.quiet]
      rfl
    have hcontrols : ({ r.controls with speedRequest := none } : Controls).Unhindered :=
      ⟨h.controls.running, h.controls.unstopped, h.controls.unlimited⟩
    refine ⟨more ++ [.setSpeed speed],
      ⟨hcontrols, h.observer, ?_, hquiet, h.ticks.trans hticks.symm⟩, hticks⟩
    show r.scheduler.withSpeed speed = _
    rw [h.scheduler, Scheduler.run_concat]
    rfl

variable [Ground ω] [Listener η] [Observer ο ω]

/-- As long as the clock can go on, a tick is one more deed. -/
theorem tick (h : r.Underway calm s more) (hcalm : Observer.Calm ω calm)
    (hclock : s.clock.now.val + ticksIn more < 18446744073709551615) :
    ∃ r' more', r.tick = .ok r' ∧ r'.Underway calm s more' ∧ ticksIn more' = ticksIn more + 1 := by
  have hnow := s.clock_run more
  rw [← h.scheduler] at hnow
  rcases htick : r.scheduler.tick r.world r.listener with e | t
  · -- the clock has not come to its end
    rcases r.scheduler.tick_cases r.world r.listener with ⟨e, he, -⟩ | ⟨clock, -, hok⟩
    · have hlast := Clock.now_of_advance_error he
      omega
    · rw [htick] at hok
      cases hok
  · let ticked : Run ω η ο :=
      { r with
        scheduler := t.scheduler
        world := t.world
        listener := t.listener
        ticks := r.ticks + 1
        tally := r.tally.plus t.report.tally
        completed := r.completed + Capped.clamp t.report.completions.length }
    have hticks : ticksIn (more ++ [.tick r.world r.listener]) = ticksIn more + 1 :=
      ticksIn_append more [.tick r.world r.listener]
    have hquiet : handedIn (more ++ [.tick r.world r.listener]) = [] := by
      rw [handedIn_append, h.quiet]
      rfl
    have hafter : s.run (more ++ [.tick r.world r.listener]) = t.scheduler := by
      rw [Scheduler.run_concat, ← h.scheduler, Scheduler.after, htick]
    refine ⟨ticked.observed (Observer.afterTick r.observer t.report ticked.reach),
      more ++ [.tick r.world r.listener], by rw [Run.tick, htick], ?_, hticks⟩
    refine ⟨hcalm.unhindered _ _ _ h.observer h.controls, hcalm.stays _ _ _ h.observer, ?_,
      hquiet, ?_⟩
    · show { t.scheduler with
        funnel := (Observer.afterTick r.observer t.report ticked.reach).2.funnel } = _
      rw [hcalm.sendsNothing _ _ _ h.observer, hafter]
      rfl
    · show min (r.ticks.val + 1) _ = _
      rw [h.ticks, hticks]
      omega

/-- A run until idle ends with a tick that leaves the scheduler idle, and otherwise goes on. -/
theorem round (h : r.Underway calm s more) (hcalm : Observer.Calm ω calm)
    (hclock : s.clock.now.val + ticksIn more < 18446744073709551615) :
    ∃ r' more', r.round .untilIdle
        = (if r'.scheduler.isIdle then .ended .idle else .goesOn, r') ∧
      r'.Underway calm s more' ∧ ticksIn more' = ticksIn more + 1 := by
  obtain ⟨sped, hsped, hsame⟩ := h.applySpeed
  obtain ⟨r', more', htick, h', hticks⟩ := hsped.tick hcalm (by rwa [hsame])
  refine ⟨r', more', ?_, h', by rw [hticks, hsame]⟩
  have hlimit : r'.controls.limitReached r'.ticks = false := by
    rw [Controls.limitReached, h'.controls.unlimited]
    rfl
  have hending : r'.ending? .untilIdle = if r'.scheduler.isIdle then some .idle else none := by
    rw [Run.ending?, hcalm.noPendingWork _ h'.observer, hlimit]
    cases r'.scheduler.isIdle <;> rfl
  rw [Run.round, h.sitOutPause]
  simp only [h.controls.unstopped, htick, hending]
  cases r'.scheduler.isIdle <;> rfl

/-- If the scheduler is idle once it has done a number of ticks, a run until idle ends by then. -/
theorem rounds {bound : Nat} (hcalm : Observer.Calm ω calm)
    (hidle : ∀ more, handedIn more = [] → bound ≤ ticksIn more → (s.run more).isIdle = true)
    (hclock : s.clock.now.val + bound ≤ 18446744073709551615) {n : Nat}
    (h : r.Underway calm s more) (hmore : ticksIn more < bound) (hn : bound ≤ ticksIn more + n) :
    ∃ r' more', Run.rounds .untilIdle n r = (.ok .idle, r') ∧ r'.Underway calm s more' ∧
      ticksIn more' ≤ bound ∧ r'.scheduler.isIdle = true := by
  induction n generalizing r more with
  | zero => omega
  | succ n ih =>
      obtain ⟨r', more', hround, h', hticks⟩ := h.round hcalm (by omega)
      cases hend : r'.scheduler.isIdle with
      | true =>
          rw [hend] at hround
          exact ⟨r', more', by rw [Run.rounds, hround]; rfl, h', by omega, hend⟩
      | false =>
          have hbefore : ticksIn more' < bound := by
            by_contra hle
            have hdone := hidle more' h'.quiet (by omega)
            rw [← h'.scheduler, hend] at hdone
            cases hdone
          obtain ⟨last, deeds, hrounds, hlast⟩ := ih h' hbefore (by omega)
          rw [hend] at hround
          exact ⟨last, deeds, by rw [Run.rounds, hround]; exact hrounds, hlast⟩

end Underway

/-- A run until idle that nothing holds back ends once its scheduler must be idle. -/
theorem run_untilIdle [Ground ω] [Listener η] [Observer ο ω] (hcalm : Observer.Calm ω calm)
    {bound : Nat} (hpos : 0 < bound)
    (hidle : ∀ more, handedIn more = [] → bound ≤ ticksIn more → (s.run more).isIdle = true)
    (hclock : s.clock.now.val + bound ≤ 18446744073709551615) (world : ω) (listener : η) {o : ο}
    (ho : calm o) {c : Controls} (hc : c.Unhindered) :
    ∃ result r, (Run.start s world listener o c).run .untilIdle = (.ok result, r) ∧
      result.ending = .idle ∧ result.ticks.val ≤ bound ∧ r.scheduler.isIdle = true := by
  have hleft : s.clock.ticksLeft = 18446744073709551615 - s.clock.now.val := rfl
  have henough : bound ≤ ticksIn [] + (s.clock.ticksLeft + 1) := by omega
  obtain ⟨r, more, hrounds, hend, hticks, hdone⟩ :=
    (Underway.start world listener ho hc).rounds hcalm hidle hclock hpos henough
  refine ⟨r.result .idle, r, ?_, rfl, hend.ticks.trans_le hticks, hdone⟩
  unfold run
  rw [show (Run.start s world listener o c).scheduler = s from rfl, hrounds]

end Run

/-! ## Every reachable state -/

/-- What a scheduler holds fires in time, if nothing is handed in any more. -/
structure Scheduler.DrainsInTime (s : Scheduler) (settings : Regeneration) : Prop where
  /-- After so many ticks nothing is left to do, whatever the ground and the listener do and
      whatever the speed is set to in between. -/
  idle : ∀ more, handedIn more = [] → s.drainTime settings ≤ ticksIn more →
    (s.run more).isIdle = true
  /-- If no layer waits, the last deadline on the agenda says when. -/
  fired : s.layers.isEmpty = true → ∀ more, handedIn more = [] →
    s.lastDeadline - s.clock.now.val ≤ ticksIn more → (s.run more).isIdle = true
  /-- A run until idle that nothing holds back ends by then, because the scheduler is idle. -/
  ends : ∀ {ω η ο : Type} [Ground ω] [Listener η] [Observer ο ω] {calm : ο → Prop},
    Observer.Calm ω calm → ∀ (world : ω) (listener : η) (observer : ο) (controls : Controls),
    calm observer → controls.Unhindered →
    ∃ result r, (Run.start s world listener observer controls).run .untilIdle = (.ok result, r) ∧
      result.ending = .idle ∧ result.ticks.val ≤ max 1 (s.drainTime settings) ∧
      r.scheduler.isIdle = true

section Reachable

open Scheduler

variable {settings : Regeneration} {seed : Tick} {s : Scheduler}

/-- **Nothing gets stuck.** From every state with an empty funnel that a run reaches, if nothing
    more is handed in, all that the scheduler holds has fired after its drain time, and a run until
    idle ends by then. -/
theorem drained_in_time (fresh : Scheduler.new settings seed = .ok s) (deeds : List Deed)
    (distinct : ((handedIn deeds).map Parcel.id).Nodup)
    (small : ∀ p ∈ handedIn deeds, p.damage.cells.length < 4294967296)
    (empty : (s.run deeds).funnel.isEmpty = true)
    (ahead : (s.run deeds).clock.now.val + (s.run deeds).drainTime settings
      < 18446744073709551615) : (s.run deeds).DrainsInTime settings := by
  have hnow := (le_lastDeadline (s.run deeds)).1
  have hagenda : (s.run deeds).lastDeadline
      ≤ (s.run deeds).clock.now.val + (s.run deeds).drainTime settings := by
    rw [drainTime]
    omega
  have hidle : ∀ more, handedIn more = [] → (s.run deeds).drainTime settings ≤ ticksIn more →
      ((s.run deeds).run more).isIdle = true := by
    intro more hmore hticks
    have hdrains := drainsBy_run fresh deeds empty hagenda fun _ => by rw [drainTime]; omega
    rw [← run_append]
    exact isIdle_of_drainsBy fresh distinct small hmore hdrains (by omega) (by omega)
  refine ⟨hidle, fun hlayers more hmore hticks => ?_,
    fun hcalm world listener observer controls hobserver hcontrols => ?_⟩
  · have hdrains := drainsBy_run fresh deeds empty (Nat.le_refl _)
      fun hne => absurd (List.isEmpty_iff.1 hlayers) hne
    rw [← run_append]
    exact isIdle_of_drainsBy fresh distinct small hmore hdrains (by omega) (by omega)
  · exact Run.run_untilIdle hcalm (Nat.lt_of_lt_of_le Nat.zero_lt_one (Nat.le_max_left _ _))
      (fun more hmore hle => hidle more hmore (Nat.le_trans (Nat.le_max_right _ _) hle))
      (by omega) world listener hobserver hcontrols

/-- A layer waits and another is on the agenda when the speed falls to zero. The delays grow, and
    still a run until idle, watched by a script without blasts, ends well within the drain time. -/
theorem drained_in_time_at_speed_zero : ∃ s, Scheduler.new Regeneration.default 7 = .ok s ∧
    let tick : Deed := .tick (Atlas.empty []) Journal.empty
    let deeds : List Deed := [.submit (quarried 1 [(0, 0), (0, 1), (1, 1)]), tick, .setSpeed 10]
    let t := s.run deeds
    let ran := (Run.start t (Atlas.empty []) Journal.empty
      (Script.mk "quarry" Agenda.empty true 0 0 DamageId.ofNat 0)
      ((Controls.start 50 0).requestSpeed 0)).run .untilIdle
    ((handedIn deeds).map Parcel.id).Nodup ∧
      (∀ p ∈ handedIn deeds, p.damage.cells.length < 4294967296) ∧ t.funnel.isEmpty = true ∧
      t.clock.now.val + t.drainTime Regeneration.default < 18446744073709551615 ∧
      t.DrainsInTime Regeneration.default ∧ t.layers.size = 1 ∧ t.lastDeadline = 31 ∧
      t.drainTime Regeneration.default = 224 ∧
      (t.run (.setSpeed 0 :: List.replicate 224 tick)).isIdle = true ∧
      (∃ result r, ran = (.ok result, r) ∧ result.ending = .idle ∧ result.ticks.val ≤ 224) ∧
      ran.1.toOption.map (fun result => result.ticks.val) = some 119 := by
  have hdrains := @drained_in_time Regeneration.default 7 _ rfl
    [.submit (quarried 1 [(0, 0), (0, 1), (1, 1)]), .tick (Atlas.empty []) Journal.empty,
      .setSpeed 10] (by decide) (by decide) (by decide +kernel) (by decide +kernel)
  refine ⟨_, rfl, by decide, by decide, by decide +kernel, by decide +kernel, hdrains,
    by decide +kernel, by decide +kernel, by decide +kernel,
    hdrains.idle _ (by decide +kernel) (by decide +kernel), ?_, by decide +kernel⟩
  obtain ⟨result, r, hrun, hending, hticks, -⟩ := hdrains.ends Script.calm (Atlas.empty [])
    Journal.empty (Script.mk "quarry" Agenda.empty true 0 0 DamageId.ofNat 0)
    ((Controls.start 50 0).requestSpeed 0) rfl ⟨rfl, rfl, rfl⟩
  exact ⟨result, r, hrun, hending, Nat.le_trans hticks (by decide +kernel)⟩

end Reachable

end Mend
