import Mend.Proofs.Atlas.Reordering
import Mend.Proofs.Restoring
import Mend.Proofs.Scheduler.Shuffling
import Mend.Proofs.Site

set_option autoImplicit false

/-! # Damage that is apart may be submitted in either order

Without a cap on pending cells and without jitter it makes no difference in which order two parcels
are submitted that have no cell in common. `Site.Indifferent` says what that means for all that
happens at a site afterwards: each parcel gets the same verdict, each tick does the same work, and
the atlas holds the same after each tick. Only the completions of one tick, and the signals given on
it, may come in another order.

The two orders leave sites that are *shuffled*: their schedulers differ in how the tasks of
different damage are interleaved, and their atlases in the order of the signals. Every act keeps
sites shuffled, and does the same at both (`Site.Shuffled.act`). -/

namespace Mend

namespace Site

/-! ## The work done at a site -/

/-- What a tick at a site does. -/
structure Work where
  report : TickReport
  fired : List Shot
  /-- The signals given on the tick, in order. -/
  signals : List Signal
  /-- The atlas as the tick leaves it. -/
  atlas : Atlas

/-- The work of an act: only a tick that runs does any. -/
def workOn (x : Site) : Act → List Work
  | @Act.tick _ _ listener => match x.scheduler.tick x.atlas listener with
    | .ok r =>
      [{ report := r.report
         fired := x.scheduler.firedOn (.tick x.atlas listener)
         signals := r.world.signals.toList.drop x.atlas.signals.size
         atlas := r.world }]
    | .error _ => []
  | .submit _ | .send _ | .setSpeed _ | .setNatural _ _ _ | .place _ _ _ | .fillBall _ _ _ _
  | .clearBox _ _ _ | .explode _ _ => []

/-- The work of a list of acts, tick by tick. -/
def work (x : Site) : List Act → List Work
  | [] => []
  | act :: rest => x.workOn act ++ (x.after act).work rest

/-- The damage that an act takes in or discards. -/
def intakesOn (x : Site) (act : Act) : List Intake :=
  (x.deedOf act).elim [] x.scheduler.intakesOn

/-- The damage that a list of acts takes in or discards, in order. -/
def intakes (x : Site) (acts : List Act) : List Intake := x.scheduler.intakes (x.deeds acts)

theorem intakes_cons (x : Site) (act : Act) (rest : List Act) :
    x.intakes (act :: rest) = x.intakesOn act ++ (x.after act).intakes rest := by
  rw [intakes, deeds, Scheduler.intakes, Scheduler.gather_append, intakesOn, intakes]
  unfold after
  cases x.deedOf act with
  | none => rfl
  | some d => exact congrArg (· ++ _) (List.append_nil _)

/-- A tick that runs fires what is due on the atlas, and this is all that it does there. -/
theorem work_tick {η : Type} [Listener η] {x : Site} {clock : Clock}
    (h : x.scheduler.clock.advance = .ok clock) (listener : η) :
    let ready := x.scheduler.prepared clock
    let shots := ready.dueShots x.atlas
    let atlas := x.atlas.fireAll ready.dueTasks
    x.after (.tick listener) = ⟨atlas, ready.poised.settleAll shots⟩ ∧
      x.workOn (.tick listener) =
        [{ report :=
            { tick := clock.now
              intake := ({ x.scheduler with clock }.takeIn).1
              release := (x.scheduler.received clock).release.1
              tally := (shots.map Shot.outcome).foldl Tally.record Tally.zero
              completions := completionsOf shots }
           fired := shots
           signals := atlas.signals.toList.drop x.atlas.signals.size
           atlas }] := by
  rcases x.scheduler.tick_cases x.atlas listener with ⟨e, he, -⟩ | ⟨clock', hclock, htick⟩
  · rw [h] at he
    cases he
  · rw [h] at hclock
    cases hclock
    have hdeed : x.deedOf (.tick listener) = some (.tick x.atlas listener) := rfl
    constructor
    · rw [after, hdeed, atlasAfter, htick]
      exact congrArg (Site.mk _) (Scheduler.after_tick h x.atlas listener)
    · rw [workOn, htick, Scheduler.firedOn_tick h]
      rfl

/-- A tick that does not run does nothing. -/
theorem work_tick_error {η : Type} [Listener η] {x : Site} {e : ClockError}
    (h : x.scheduler.clock.advance = .error e) (listener : η) :
    x.after (.tick listener) = x ∧ x.workOn (.tick listener) = [] ∧
      x.intakesOn (.tick listener) = [] := by
  rcases x.scheduler.tick_cases x.atlas listener with ⟨e', -, htick⟩ | ⟨clock, hclock, -⟩
  · obtain ⟨hafter, hintakes, -⟩ := Scheduler.tick_error h x.atlas listener
    have hdeed : x.deedOf (.tick listener) = some (.tick x.atlas listener) := rfl
    refine ⟨?_, by rw [workOn, htick], by rw [intakesOn, hdeed]; exact hintakes⟩
    rw [after, hdeed, atlasAfter, htick]
    exact congrArg (Site.mk _) hafter
  · rw [h] at hclock
    cases hclock

/-- The two ticks do the same, but for the order of their completions and signals: the reports agree
    in everything else, the same tasks fire and come out the same, those of each damage in the same
    order, and the atlases hold the same. -/
structure Work.SameButOrder (w w' : Work) : Prop where
  report : w'.report = { w.report with completions := w'.report.completions }
  completions : w'.report.completions.Perm w.report.completions
  fired : w'.fired.Perm w.fired
  each : ∀ id, shotsOf id w'.fired = shotsOf id w.fired
  signals : w'.signals.Perm w.signals
  atlas : w'.atlas = { w.atlas with signals := w'.atlas.signals }

/-! ## Shuffled sites -/

/-- The schedulers of the two sites are shuffled, and their atlases are the same but for the order
    of the signals. -/
structure Shuffled (x x' : Site) : Prop where
  scheduler : x.scheduler.Shuffled x'.scheduler
  atlas : x.atlas.Reordered x'.atlas
  holds : x.scheduler.pending.Holds (x.scheduler.liveTasks.map Task.cell)

/-- An act does the same at two sites, but for the order of completions and signals, and leaves them
    shuffled. -/
structure Alike (x x' : Site) (act : Act) : Prop where
  left : (x.after act).Shuffled (x'.after act)
  intakes : x'.intakesOn act = x.intakesOn act
  work : List.Forall₂ Work.SameButOrder (x.workOn act) (x'.workOn act)

end Site

/-- Firing what is due, when the schedulers are shuffled and the atlases reordered. -/
theorem Scheduler.Shuffled.fireDue {s s' : Scheduler} (h : s.Shuffled s') {a b : Atlas}
    (hatlas : a.Reordered b) (hdistinct : (s.dueTasks.map Task.cell).Nodup) :
    SameFor (·.task.damage) (s.dueShots a) (s'.dueShots b) ∧
      (s.poised.settleAll (s.dueShots a)).Shuffled (s'.poised.settleAll (s'.dueShots b)) ∧
      ((b.fireAll s'.dueTasks).signals.toList.drop b.signals.size).Perm
        ((a.fireAll s.dueTasks).signals.toList.drop a.signals.size) := by
  have hdue := h.dueTasks.perm
  have hdistinct' := (hdue.map Task.cell).nodup_iff.2 hdistinct
  have hout : (s.dueShots a).map (fun x => (x.task, x.outcome))
      = s.dueTasks.map fun t => (t, a.outcomeOf t) := Atlas.map_shots s.poised hdistinct
  -- how a task comes out, and the signal it gives, do not depend on the signals given so far
  obtain ⟨signals, rfl⟩ : ∃ signals, b = { a with signals } := ⟨_, hatlas.rest⟩
  have hout' : (s'.dueShots { a with signals }).map (fun x => (x.task, x.outcome))
      = s'.dueTasks.map fun t => (t, a.outcomeOf t) := Atlas.map_shots s'.poised hdistinct'
  obtain ⟨hsame, hleft⟩ := h.fire hout hout'
  refine ⟨hsame, hleft, ?_⟩
  rw [Atlas.drop_signals_fireAll _ hdistinct, Atlas.drop_signals_fireAll _ hdistinct']
  exact hdue.filterMap _

namespace Site

variable {x x' : Site}

/-- The tasks that are due on a tick have different cells. -/
theorem Shuffled.distinct (h : x.Shuffled x') (clock : Clock) :
    ((x.scheduler.prepared clock).dueTasks.map Task.cell).Nodup := by
  have hnodup := (Scheduler.holds_poised h.holds clock).nodup
  rw [List.map_append] at hnodup
  exact (List.nodup_append.1 hnodup).1

theorem Shuffled.tick (h : x.Shuffled x') {η : Type} [Listener η] (listener : η) :
    x.Alike x' (.tick listener) := by
  have hclock : x'.scheduler.clock = x.scheduler.clock := by rw [h.scheduler.rest]
  have hholds := Scheduler.holds_after h.holds (.tick x.atlas listener)
  cases hadvance : x.scheduler.clock.advance with
  | error e =>
      obtain ⟨hafter, hwork, hintakes⟩ := work_tick_error hadvance listener
      obtain ⟨hafter', hwork', hintakes'⟩ := work_tick_error (hclock ▸ hadvance) listener
      exact ⟨hafter.symm ▸ hafter'.symm ▸ h, hintakes'.trans hintakes.symm,
        hwork.symm ▸ hwork'.symm ▸ .nil⟩
  | ok clock =>
      have hadvance' : x'.scheduler.clock.advance = .ok clock := hclock ▸ hadvance
      obtain ⟨hverdicts, hintakes, -⟩ := h.scheduler.received clock
      obtain ⟨hrelease, hprepared⟩ := h.scheduler.prepared clock
      obtain ⟨hsame, hscheduler, hsignals⟩ := hprepared.fireDue h.atlas (h.distinct clock)
      have hatlas := h.atlas.fireAll hprepared.dueTasks.perm (h.distinct clock)
      obtain ⟨hafter, hwork⟩ := work_tick hadvance listener
      obtain ⟨hafter', hwork'⟩ := work_tick hadvance' listener
      refine ⟨?_, ?_, ?_⟩
      · rw [hafter, hafter']
        refine ⟨hscheduler, hatlas, ?_⟩
        rwa [Scheduler.after_tick hadvance] at hholds
      · exact (Scheduler.intakesOn_tick hadvance' _ _).trans
          (hintakes.trans (Scheduler.intakesOn_tick hadvance _ _).symm)
      · rw [hwork, hwork']
        refine .cons ?_ .nil
        exact
          { report := by
              simp only [hverdicts, hrelease,
                Tally.foldl_record_perm (hsame.perm.map Shot.outcome)]
            completions := hsame.perm.filterMap _
            fired := hsame.perm
            each := hsame
            signals := hsignals
            atlas := hatlas.rest }

/-- Every act does the same at shuffled sites, and leaves them shuffled. -/
theorem Shuffled.act (h : x.Shuffled x') (act : Act) : x.Alike x' act := by
  -- acts that leave the scheduler alone, and those that leave the atlas alone
  have hpaint : ∀ {a b : Atlas}, a.Reordered b →
      Shuffled ⟨a, x.scheduler⟩ ⟨b, x'.scheduler⟩ := fun hatlas => ⟨h.scheduler, hatlas, h.holds⟩
  have hdeed : ∀ d : Deed, (x.scheduler.after d).Shuffled (x'.scheduler.after d) →
      Shuffled ⟨x.atlas, x.scheduler.after d⟩ ⟨x'.atlas, x'.scheduler.after d⟩ := fun d hafter =>
    ⟨hafter, h.atlas, Scheduler.holds_after h.holds d⟩
  cases act with
  | submit p =>
      obtain ⟨hverdict, hafter⟩ := h.scheduler.accept p.id p.damage
      have hclock : x'.scheduler.clock = x.scheduler.clock := by rw [h.scheduler.rest]
      refine ⟨hdeed (.submit p) hafter, ?_, .nil⟩
      show [Intake.mk p _ _] = [Intake.mk p _ _]
      rw [hverdict, hclock]
  | send p => exact ⟨hdeed (.send p) (h.scheduler.send p), rfl, .nil⟩
  | setSpeed speed => exact ⟨hdeed (.setSpeed speed) (h.scheduler.withSpeed speed), rfl, .nil⟩
  | tick listener => exact h.tick listener
  | setNatural name pos content => exact ⟨hpaint (h.atlas.modifyWorld name _), rfl, .nil⟩
  | place name pos content => exact ⟨hpaint (h.atlas.modifyWorld name _), rfl, .nil⟩
  | fillBall name center radius material =>
      exact ⟨hpaint (h.atlas.fillBall name center radius material), rfl, .nil⟩
  | clearBox name box material => exact ⟨hpaint (h.atlas.modifyWorld name _), rfl, .nil⟩
  | explode name blast => exact ⟨hpaint (h.atlas.explode name blast), rfl, .nil⟩

/-- Every list of acts does the same at shuffled sites, and leaves them shuffled. -/
theorem Shuffled.run (h : x.Shuffled x') (acts : List Act) :
    (x.run acts).Shuffled (x'.run acts) ∧ x'.intakes acts = x.intakes acts ∧
      List.Forall₂ Work.SameButOrder (x.work acts) (x'.work acts) := by
  induction acts generalizing x x' with
  | nil => exact ⟨h, rfl, .nil⟩
  | cons act rest ih =>
      obtain ⟨hleft, hintakes, hwork⟩ := h.act act
      obtain ⟨hshuffled, hintakes', hwork'⟩ := ih hleft
      refine ⟨hshuffled, ?_, List.rel_append hwork hwork'⟩
      rw [intakes_cons, intakes_cons, hintakes, hintakes']

/-! ## Submitting in either order -/

/-- It makes no difference to what follows in which order two parcels are submitted. -/
structure Indifferent (x : Site) (p q : Parcel) (acts : List Act) : Prop where
  /-- Each of the two gets the same verdict, and all other damage is taken in the same. -/
  intakes : ∃ i j rest, i.parcel = p ∧ j.parcel = q ∧
    x.intakes (.submit p :: .submit q :: acts) = i :: j :: rest ∧
    x.intakes (.submit q :: .submit p :: acts) = j :: i :: rest
  /-- Tick by tick the same is done, but for the order of completions and signals. -/
  work : List.Forall₂ Work.SameButOrder (x.work (.submit p :: .submit q :: acts))
    (x.work (.submit q :: .submit p :: acts))
  /-- In the end the atlas holds the same. -/
  atlas : (x.run (.submit p :: .submit q :: acts)).atlas.Reordered
    (x.run (.submit q :: .submit p :: acts)).atlas

/-- **Without a cap and without jitter it does not matter in which order damage is submitted.** In
    every state that a run reaches, and on every atlas, two parcels of different names that have no
    cell in common may be submitted in either order. Whatever is done then, each of them gets the
    same verdict, and so does all that is taken in later; every tick fires the same tasks, which
    come out the same, and completes the same damage with the same reports; and it leaves the same
    in all cells. Only the completions of one tick and the signals given on it may come in another
    order. -/
theorem order_immaterial {settings : Regeneration} {seed : Tick} {s : Scheduler}
    (fresh : Scheduler.new settings seed = .ok s) (steady : settings.maxJitter.val = 0)
    (uncapped : settings.maxPending.val = 0) (deeds : List Deed) (atlas : Atlas) {p q : Parcel}
    (named : p.id ≠ q.id) (apart : p.damage.Apart q.damage) (acts : List Act) :
    Indifferent ⟨atlas, s.run deeds⟩ p q acts := by
  have hplain := Scheduler.plain_run fresh steady uncapped deeds
  have hholds := Scheduler.holds_after (Scheduler.holds_after (Scheduler.holds_run fresh deeds)
    (.submit p)) (.submit q)
  have hshuffled : Shuffled (run ⟨atlas, s.run deeds⟩ [.submit p, .submit q])
      (run ⟨atlas, s.run deeds⟩ [.submit q, .submit p]) :=
    ⟨Scheduler.shuffled_of_apart hplain named apart, Atlas.Reordered.refl atlas, hholds⟩
  obtain ⟨hleft, hintakes, hwork⟩ := hshuffled.run acts
  -- neither verdict depends on the other parcel
  have hverdicts : ∀ {p q : Parcel}, p.damage.Apart q.damage →
      intakes ⟨atlas, s.run deeds⟩ (.submit p :: .submit q :: acts)
        = ⟨p, (s.run deeds).clock.now, ((s.run deeds).accept p.id p.damage).1⟩
          :: ⟨q, (s.run deeds).clock.now, ((s.run deeds).accept q.id q.damage).1⟩
          :: (run ⟨atlas, s.run deeds⟩ [.submit p, .submit q]).intakes acts := by
    intro p q apart
    rw [intakes_cons, intakes_cons]
    show Intake.mk p _ _ :: Intake.mk q ((s.run deeds).accept p.id p.damage).2.clock.now
      (((s.run deeds).accept p.id p.damage).2.accept q.id q.damage).1 :: _ = _
    rw [(Scheduler.accept_after_apart hplain apart p.id q.id).1, Scheduler.accept_clock]
    rfl
  exact ⟨⟨_, _, _, rfl, rfl, hverdicts apart, hintakes ▸ hverdicts apart.symm⟩, hwork, hleft.atlas⟩

/-- Of two parcels that are submitted while other damage is underway, some cells are restored, one
    is skipped and one fails. A third parcel that overlaps them comes later. The two are completed
    on the same tick, in the order in which they were submitted. -/
theorem order_immaterial_in_quarry : ∃ s, Scheduler.new prompt 7 = .ok s ∧
    let x : Site := ⟨site, s.run [.submit (quarried 9 [(5, 0)]), .tick site ()]⟩
    let p := quarried 1 [(0, 0), (1, 0)]
    let q := quarried 2 [(2, 0), (3, 0)]
    let acts : List Act := [.tick (), .submit (quarried 3 [(0, 0), (0, 1)]), .setSpeed 7]
      ++ List.replicate 8 (.tick ())
    let completed := fun w : Work => w.report.completions.map Completion.damage
    prompt.maxJitter.val = 0 ∧ prompt.maxPending.val = 0 ∧ p.id ≠ q.id ∧
      p.damage.Apart q.damage ∧ x.Indifferent p q acts ∧
      (x.work (.submit p :: .submit q :: acts)).flatMap completed
        = [9, 1, 2, 3].map DamageId.ofNat ∧
      (x.work (.submit q :: .submit p :: acts)).flatMap completed
        = [9, 2, 1, 3].map DamageId.ofNat := by
  have hnamed : (quarried 1 [(0, 0), (1, 0)]).id ≠ (quarried 2 [(2, 0), (3, 0)]).id := by decide
  have hapart :
      (quarried 1 [(0, 0), (1, 0)]).damage.Apart (quarried 2 [(2, 0), (3, 0)]).damage := by
    decide +kernel
  exact ⟨_, rfl, rfl, rfl, hnamed, hapart,
    @order_immaterial prompt 7 _ rfl rfl rfl _ site _ _ hnamed hapart _, by decide +kernel,
    by decide +kernel⟩

end Site

end Mend
