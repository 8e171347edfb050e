import Mend.Atlas.Restore
import Mend.Journal
import Mend.Proofs.Scheduler.Likeness
import Mend.Proofs.Scheduler.Punctual

set_option autoImplicit false

/-! # Damage submitted and damage sent

Damage that is submitted is taken in at once; damage that is sent waits in the funnel and is taken
in on the next tick. Where nothing else waits in the funnel, that is the whole difference: the
verdicts are the same, the tick does and reports the same, and the schedulers it leaves differ in
the tick on which the records say that the damage was taken in, now and after every continuation
(`submitted_as_sent`).

On the way the two schedulers differ in more. One wakes its drain a tick earlier than the other, so
a drain that was idle has another phase (`Handing`); the release phase of the tick finds both ready
and makes their phases the same again. -/

namespace Mend

/-! ## Records that differ in when damage was taken in -/

/-- The records are the same, or they are those of damage with one of the given identifiers, which
    the first says was taken in on tick `early` and the second on tick `late`. -/
def Record.TakenInLater (ids : List DamageId) (early late : Tick) (id : DamageId)
    (r r' : Record) : Prop :=
  r' = r ∨ id ∈ ids ∧ r.damage = id ∧ r.submitted = early ∧ r' = { r with submitted := late }

/-- The completions are the same, or they are of damage with one of the given identifiers, which the
    first says was taken in on tick `early` and the second on tick `late`. -/
def Completion.TakenInLater (ids : List DamageId) (early late : Tick) (c c' : Completion) : Prop :=
  c' = c ∨ c.damage ∈ ids ∧ c.submitted = early ∧ c' = { c with submitted := late }

/-- The reports differ at most in when completed damage with one of the given identifiers was taken
    in. -/
structure TickReport.TakenInLater (ids : List DamageId) (early late : Tick)
    (a a' : TickReport) : Prop where
  rest : a' = { a with completions := a'.completions }
  completions : List.Forall₂ (Completion.TakenInLater ids early late) a.completions a'.completions

/-- The deeds are the same but for the listener of a tick. -/
inductive Deed.SameGround : Deed → Deed → Prop where
  | submit (p : Parcel) : SameGround (.submit p) (.submit p)
  | send (p : Parcel) : SameGround (.send p) (.send p)
  | setSpeed (speed : Speed) : SameGround (.setSpeed speed) (.setSpeed speed)
  | tick {ω η η' : Type} [Ground ω] [Listener η] [Listener η'] (world : ω) (listener : η)
      (listener' : η') : SameGround (.tick world listener) (.tick world listener')

/-- Records that differ in when damage was taken in, while every task comes out the same. -/
def Likeness.bySubmission (ids : List DamageId) (early late : Tick) : Likeness where
  records := Record.TakenInLater ids early late
  outcomes := Eq
  same _ _ := Or.inl rfl
  remaining := by
    rintro id r _ (rfl | ⟨-, -, -, rfl⟩) <;> rfl
  resolve := by
    rintro id r _ o _ (rfl | ⟨hid, hdamage, hsubmitted, rfl⟩) rfl
    · exact Or.inl rfl
    · exact Or.inr ⟨hid, hdamage, hsubmitted, rfl⟩

variable {ids : List DamageId} {early late : Tick}

namespace Likeness

theorem deeds_bySubmission {d d' : Deed} (h : d.SameGround d') :
    (bySubmission ids early late).Deeds d d' := by
  cases h with
  | submit p => exact .submit p
  | send p => exact .send p
  | setSpeed speed => exact .setSpeed speed
  | tick world listener listener' =>
      exact .tick (grounds_self (fun _ => rfl) world) listener listener'

theorem takenInLater_of_completed {id : DamageId} {c c' : Completion}
    (h : (bySubmission ids early late).Completed id c c') : c.TakenInLater ids early late c' := by
  obtain ⟨s, r, _, rfl | ⟨hid, hdamage, hsubmitted, rfl⟩, rfl, rfl⟩ := h
  · exact Or.inl rfl
  · subst hdamage
    exact Or.inr ⟨hid, hsubmitted, rfl⟩

theorem map_outcome_of_shots {xs xs' : List Shot}
    (h : List.Forall₂ (bySubmission ids early late).Shots xs xs') :
    xs'.map Shot.outcome = xs.map Shot.outcome := by
  induction h with
  | nil => rfl
  | cons hx _ ih => rw [List.map_cons, List.map_cons, ih, show _ = _ from hx.outcome]

theorem takenInLater_of_reports {a a' : TickReport}
    (h : (bySubmission ids early late).Reports a a') : a.TakenInLater ids early late a' := by
  obtain ⟨htick, hintake, hrelease, xs, xs', hshots, hc, hc', htally, htally'⟩ := h
  constructor
  · obtain ⟨tick, intake, release, tally, completions⟩ := a'
    subst htick hintake hrelease
    rw [map_outcome_of_shots hshots, ← htally] at htally'
    subst htally'
    rfl
  · rw [hc, hc']
    exact (completionsOf_shots hshots).imp fun c c' ⟨_, h⟩ => takenInLater_of_completed h

/-- Firings of tasks of other damage bring about the same completions. -/
theorem completionsOf_eq {xs xs' : List Shot}
    (h : List.Forall₂ (bySubmission ids early late).Shots xs xs')
    (hids : ∀ x ∈ xs, x.task.damage ∉ ids) : completionsOf xs' = completionsOf xs := by
  induction h with
  | nil => rfl
  | @cons x x' xs xs' hx _ ih =>
      rw [List.forall_mem_cons] at hids
      have hcompletion : x'.completion = x.completion := by
        have hrel := hx.completion
        generalize x.completion = c, x'.completion = c' at hrel
        cases hrel with
        | none => rfl
        | some hc =>
            obtain ⟨s, r, _, rfl | ⟨hid, -⟩, rfl, rfl⟩ := hc
            · rfl
            · exact absurd hid hids.1
      rw [completionsOf, List.filterMap_cons, hcompletion, ← completionsOf, ih hids.2]
      rfl

end Likeness

/-! ## The same course from here on -/

/-- Whatever is done to both from here on, over the same grounds, the two schedulers differ at most
    in when damage with one of the given identifiers was taken in, and so do their reports; they do
    the same to the grounds. -/
structure Scheduler.SameCourse (ids : List DamageId) (early late : Tick) (s s' : Scheduler) :
    Prop where
  states : ∀ {deeds deeds'}, List.Forall₂ Deed.SameGround deeds deeds' →
    (s.run deeds).Twins (Record.TakenInLater ids early late) (s'.run deeds')
  intakes : ∀ {deeds deeds'}, List.Forall₂ Deed.SameGround deeds deeds' →
    s'.intakes deeds' = s.intakes deeds
  reports : ∀ {deeds deeds'}, List.Forall₂ Deed.SameGround deeds deeds' →
    List.Forall₂ (TickReport.TakenInLater ids early late) (s.reports deeds) (s'.reports deeds')
  worlds : ∀ {deeds deeds'}, List.Forall₂ Deed.SameGround deeds deeds' →
    ∀ {ω η η' : Type} [Ground ω] [Listener η] [Listener η'] (world : ω) (listener : η)
      (listener' : η') (r : Ticked ω η) (r' : Ticked ω η'),
      (s.run deeds).tick world listener = .ok r → (s'.run deeds').tick world listener' = .ok r' →
      r'.world = r.world

theorem Scheduler.Twins.sameCourse {s s' : Scheduler}
    (h : s.Twins (Record.TakenInLater ids early late) s') :
    s.SameCourse ids early late s' := by
  have hrun : ∀ {deeds deeds'}, List.Forall₂ Deed.SameGround deeds deeds' → _ :=
    fun hdeeds => Likeness.run (L := Likeness.bySubmission ids early late) h
      (hdeeds.imp fun _ _ => Likeness.deeds_bySubmission)
  refine ⟨fun hdeeds => (hrun hdeeds).1, fun hdeeds => (hrun hdeeds).2.1, fun hdeeds => ?_, ?_⟩
  · exact (hrun hdeeds).2.2.2.imp fun _ _ => Likeness.takenInLater_of_reports
  · intro deeds deeds' hdeeds ω η η' _ _ _ world listener listener' r r' hr hr'
    rcases Likeness.tick (hrun hdeeds).1 (Likeness.grounds_self (fun _ => rfl) world) listener
      listener' with ⟨e, he, -⟩ | ⟨q, q', hq, hq', -, hticks⟩
    · rw [hr] at he
      cases he
    · obtain rfl := Except.ok.inj (hr.symm.trans hq)
      obtain rfl := Except.ok.inj (hr'.symm.trans hq')
      obtain ⟨ts, hworld, hworld'⟩ := hticks.worlds
      rw [hworld, hworld']

/-! ## From intake to release -/

namespace Scheduler

theorem layers_of_accepted {s : Scheduler} {id : DamageId} {d : Damage} {a : Acceptance}
    (h : (s.accept id d).1 = .accepted a) : (s.accept id d).2.layers.layers ≠ [] := by
  rcases s.accept_cases id d with ⟨-, _, heq⟩ | ⟨hne, _, _, layers, heq, -, -, hperm, -⟩
  · rw [heq] at h
    cases h
  · rw [heq]
    intro hnil
    have htasks : layers.tasks = [] :=
      List.flatMap_eq_nil_iff.2 fun l hl => absurd (hnil ▸ hl) List.not_mem_nil
    rw [htasks] at hperm
    exact hne (List.append_eq_nil_iff.1 hperm.nil_eq.symm).2

/-- The schedulers have taken in the same damage, the first on tick `early` and the second on tick
    `late`, the second what it was sent. Up to the clock and the funnel they are twins, except that
    a drain may have been woken, by a layer that now waits, on `early` and `late`. -/
structure Handing (ids : List DamageId) (early late : Tick) (s s' : Scheduler) : Prop where
  now : s.clock.now = early
  now' : s'.clock.now = late
  rest : s' = { s with
    clock := s'.clock, drain := s'.drain, ledger := s'.ledger, funnel := s'.funnel }
  drain : s'.drain = s.drain ∨ s.layers.layers ≠ [] ∧ s.drain.phase = .draining early ∧
    s'.drain = { s.drain with phase := .draining late }
  records : ∀ id, Option.Rel (Record.TakenInLater ids early late id) s.ledger.records[id]?
    s'.ledger.records[id]?

/-- Waking two drains a tick apart leaves them as they were or wakes both. -/
theorem wake_apart {d d' : Drain} (h : d' = d ∨ d.phase = .draining early ∧
      d' = { d with phase := .draining late }) :
    d'.wake late = d.wake early ∨ (d.wake early).phase = .draining early ∧
      d'.wake late = { d.wake early with phase := .draining late } := by
  rcases h with rfl | ⟨hphase, rfl⟩
  · cases hphase : d'.phase with
    | idle => exact Or.inr (by simp [Drain.wake, hphase])
    | draining next => exact Or.inl (by simp [Drain.wake, hphase])
  · exact Or.inr (by simp [Drain.wake, hphase])

namespace Handing

variable {s s' : Scheduler}

theorem accept (h : Handing ids early late s s') {p : Parcel} (hp : p.id ∈ ids) :
    (s'.accept p.id p.damage).1 = (s.accept p.id p.damage).1 ∧
      Handing ids early late (s.accept p.id p.damage).2 (s'.accept p.id p.damage).2 := by
  have hlayers := @layers_of_accepted s p.id p.damage
  rcases s.accept_apart s' h.rest p.id p.damage with
    ⟨v, pending, hs, hs'⟩ | ⟨a, pending, layers, r, hid, hs, hs'⟩
  · rw [hs, hs']
    exact ⟨rfl, h.now, h.now', by rw [h.rest], h.drain, h.records⟩
  · rw [hs] at hlayers
    rw [hs, hs', h.now, h.now']
    refine ⟨rfl, h.now, h.now', ?_, ?_, fun k => ?_⟩
    · rw [h.rest]
      rfl
    · have hwoken := wake_apart (h.drain.imp_right And.right)
      rw [← h.now, ← h.now'] at hwoken ⊢
      exact hwoken.imp_right fun hboth => ⟨hlayers rfl, hboth⟩
    · have hlike : Record.TakenInLater ids early late r.damage { r with submitted := early }
          { r with submitted := late } := Or.inr ⟨hid ▸ hp, rfl, rfl, rfl⟩
      refine Likeness.rel_register (L := Likeness.bySubmission ids early late) h.records ?_ hlike k
      rfl

theorem acceptAll (h : Handing ids early late s s') (ps : List Parcel)
    (hps : ∀ p ∈ ps, p.id ∈ ids) :
    (s'.acceptAll ps).1 = (s.acceptAll ps).1 ∧
      Handing ids early late (s.acceptAll ps).2 (s'.acceptAll ps).2 := by
  induction ps generalizing s s' with
  | nil => exact ⟨rfl, h⟩
  | cons p rest ih =>
      rw [List.forall_mem_cons] at hps
      obtain ⟨hverdict, hone⟩ := h.accept hps.1
      obtain ⟨hverdicts, hrest⟩ := ih hone hps.2
      exact ⟨by simp only [Scheduler.acceptAll, hverdict, hverdicts], hrest⟩

/-- On tick `late` both drains are ready where one was woken, so the release phase does the
    same. -/
theorem poll_eq (h : Handing ids early late s s') (hle : early ≤ late) :
    s'.drain.poll late s.layers = s.drain.poll late s.layers := by
  rcases h.drain with heq | ⟨hne, hphase, heq⟩
  · rw [heq]
  · obtain ⟨layer, rest, hlayers⟩ := List.exists_cons_of_ne_nil hne
    have hlate : ¬ late < late := Nat.lt_irrefl _
    simp [heq, hphase, Drain.poll, LayerQueue.popLowest, hlayers, hlate, Capped.not_lt.2 hle]

/-- Where nothing else waits, the tick after submitting releases the same as the tick that takes in
    what was sent, and leaves twins. -/
theorem release (h : Handing ids early late s s') (hle : early ≤ late) {clock : Clock}
    (hclock : s'.clock = clock) (hfunnel : s.funnel = Funnel.empty)
    (hfunnel' : s'.funnel = Funnel.empty) :
    s'.release.1 = (s.received clock).release.1 ∧
      (s.received clock).release.2.Twins (Record.TakenInLater ids early late) s'.release.2 := by
  have hreceived : s.received clock = { s with clock, funnel := Funnel.empty } := by
    rw [received, atIntake, hfunnel]
    rfl
  rw [hreceived]
  refine Likeness.release_of_poll (L := Likeness.bySubmission ids early late) ?_ ?_ h.records
  · refine h.rest.trans ?_
    rw [hclock, hfunnel']
  · show s'.drain.poll clock.now s.layers = s.drain.poll clock.now s.layers
    rw [← hclock, h.now']
    exact h.poll_eq hle

end Handing

/-! ## When damage was taken in -/

/-- The record of the damage, if it has one, says that it was taken in on the given tick. -/
def Dates (s : Scheduler) (id : DamageId) (tick : Tick) : Prop :=
  ∀ r, s.ledger.records[id]? = some r → r.submitted = tick

/-- Taking in damage dates its record, and other damage keeps its date. -/
theorem Dates.accept {s : Scheduler} {id : DamageId} (p : Parcel)
    (h : s.Dates id s.clock.now ∨ p.id = id ∧ ∃ a, (s.accept p.id p.damage).1 = .accepted a) :
    (s.accept p.id p.damage).2.Dates id s.clock.now := by
  rcases s.accept_cases p.id p.damage with ⟨-, _, heq⟩ | ⟨hne, _, _, _, heq, -⟩
  · rw [heq] at h ⊢
    exact h.resolve_right (by rintro ⟨-, _, ha⟩; cases ha)
  · rw [heq]
    intro r hr
    have hpos := List.length_pos_iff.2 hne
    rw [Ledger.getElem?_register (show min _ _ ≠ 0 by omega)] at hr
    split_ifs at hr with hid
    · cases hr
      rfl
    · exact h.resolve_right (fun hother => hid hother.1) r hr

/-- Taking in several parcels dates the records of those that are accepted. -/
theorem dates_acceptAll (s : Scheduler) (ps : List Parcel) (id : DamageId)
    (h : s.Dates id s.clock.now ∨ ∃ p a, (p, Verdict.accepted a) ∈ ps.zip (s.acceptAll ps).1 ∧
      p.id = id) : (s.acceptAll ps).2.Dates id s.clock.now := by
  induction ps generalizing s with
  | nil => exact h.resolve_right (by simp)
  | cons p rest ih =>
      have hrest := ih (s.accept p.id p.damage).2
      rw [accept_clock] at hrest
      refine hrest ?_
      rcases h with h | ⟨q, a, hmem, hid⟩
      · exact Or.inl (Dates.accept p (Or.inl h))
      · rcases List.mem_cons.1 hmem with heq | hmem
        · obtain ⟨rfl, ha⟩ := Prod.mk.inj heq
          exact Or.inl (Dates.accept q (Or.inr ⟨hid, a, ha.symm⟩))
        · exact Or.inr ⟨q, a, hmem, hid⟩

theorem Dates.settle {s : Scheduler} {id : DamageId} {tick : Tick} (h : s.Dates id tick) (t : Task)
    (o : Outcome) : (s.settle t o).2.Dates id tick := by
  intro r hr
  replace hr : (s.ledger.resolve t.damage o).2.records[id]? = some r := hr
  cases hold : s.ledger.records[t.damage]? with
  | none =>
      rw [Ledger.resolve_of_not_contains hold] at hr
      exact h r hr
  | some q =>
      rw [Ledger.getElem?_resolve hold] at hr
      split_ifs at hr with hid
      · cases hr
        exact h q (hid ▸ hold)
      · exact h r hr

theorem Dates.settleAll {s : Scheduler} {id : DamageId} {tick : Tick} (h : s.Dates id tick)
    (xs : List Shot) : (s.settleAll xs).Dates id tick := by
  induction xs generalizing s with
  | nil => exact h
  | cons x rest ih => exact ih (h.settle x.task x.outcome)

/-- What was taken in by a tick, or before it, keeps its date until the tick is over. -/
theorem Dates.tick {ω η : Type} [Ground ω] [Listener η] {s : Scheduler} {clock : Clock} {world : ω}
    {listener : η} {r : Ticked ω η} (hr : s.tick world listener = .ok r)
    (hclock : s.clock.advance = .ok clock) {id : DamageId} {tick : Tick}
    (h : (s.received clock).Dates id tick) : r.scheduler.Dates id tick := by
  obtain ⟨clock', hclock', -, -, -, hscheduler, -⟩ := tick_eq_ok hr
  obtain rfl := Except.ok.inj (hclock'.symm.trans hclock)
  obtain ⟨_, _, _, _, hrelease, -⟩ := (s.received clock').release_eq
  have hprepared : (s.prepared clock').ledger = (s.received clock').ledger := by
    show (s.received clock').release.2.ledger = _
    rw [hrelease]
  rw [hscheduler]
  refine Dates.settleAll (s := (s.prepared clock').poised) ?_ _
  rw [Dates, poised, hprepared]
  exact h

/-! ## The two runs -/

/-- In a scheduler whose funnel is open and empty, the damage `ps` was submitted and then a tick
    left `a`, or it was sent and then the tick left `b`. -/
structure Handover {ω η : Type} (s : Scheduler) (ps : List Parcel) (a b : Ticked ω η) : Prop where
  /-- The tick reports the verdicts that submitting gave, and otherwise no intake. -/
  verdicts : a.report.intake = [] ∧
    b.report.intake = (s.intakes (ps.map .submit)).map Intake.verdict
  tick : a.report.tick.val = s.clock.now.val + 1
  report : a.report.TakenInLater (ps.map Parcel.id) s.clock.now a.report.tick
    { b.report with intake := [] }
  world : b.world = a.world
  /-- Where accepted damage still has a record, it says when the damage was taken in: on the tick
      that ran before, or on this one. -/
  dates : ∀ i ∈ s.intakes (ps.map .submit), ∀ v, i.verdict = .accepted v →
    a.scheduler.Dates i.parcel.id s.clock.now ∧ b.scheduler.Dates i.parcel.id a.report.tick
  /-- The schedulers differ at most in when the damage was taken in, now and from here on. -/
  course : a.scheduler.SameCourse (ps.map Parcel.id) s.clock.now a.report.tick b.scheduler

end Scheduler

section Apart

open Scheduler

variable {m : Scheduler} {clock : Clock} {ps : List Parcel}

theorem Scheduler.run_send_of_empty (hfunnel : m.funnel = Funnel.empty) (ps : List Parcel) :
    m.run (ps.map .send) = { m with funnel := ⟨ps, false⟩ } := by
  rw [run_send (by rw [hfunnel]; rfl), hfunnel]
  rfl

theorem Scheduler.funnel_submit (s : Scheduler) (ps : List Parcel) :
    (s.run (ps.map .submit)).funnel = s.funnel := by
  obtain ⟨_, _, _, _, heq⟩ := s.acceptAll_eq ps
  rw [run_submit, heq]

/-- Where the funnel is empty, a scheduler to which damage is submitted and one that takes it in on
    the next tick have the same verdicts, and hand over the same damage to the release phase. -/
theorem Scheduler.handing_received (hfunnel : m.funnel = Funnel.empty) (clock : Clock)
    (ps : List Parcel) :
    ({ m.run (ps.map .send) with clock } : Scheduler).takeIn.1 = (m.acceptAll ps).1 ∧
      Handing (ps.map Parcel.id) m.clock.now clock.now (m.run (ps.map .submit))
        ((m.run (ps.map .send)).received clock) := by
  have hstart : Handing (ps.map Parcel.id) m.clock.now clock.now m
      ({ m with clock, funnel := Funnel.empty } : Scheduler) :=
    ⟨rfl, rfl, rfl, Or.inl rfl, (Likeness.twins_self
      (L := Likeness.bySubmission (ps.map Parcel.id) m.clock.now clock.now) m).records⟩
  rw [run_submit, run_send_of_empty hfunnel]
  exact hstart.acceptAll ps fun p hp => List.mem_map_of_mem hp

/-- Where the funnel is empty, a scheduler to which damage was submitted and one to which it was
    sent have released the same on the next tick, and are twins when firing begins. -/
theorem Scheduler.twins_prepared (hfunnel : m.funnel = Funnel.empty)
    (hclock : m.clock.advance = .ok clock) (ps : List Parcel) :
    ((m.run (ps.map .send)).received clock).release.1
        = ((m.run (ps.map .submit)).received clock).release.1 ∧
      ((m.run (ps.map .submit)).prepared clock).Twins
        (Record.TakenInLater (ps.map Parcel.id) m.clock.now clock.now)
        ((m.run (ps.map .send)).prepared clock) := by
  have hnow := Clock.now_of_advance hclock
  have hdrained : ((m.run (ps.map .send)).received clock).funnel = Funnel.empty := by
    obtain ⟨_, _, _, _, heq⟩ := ((m.run (ps.map .send)).atIntake clock).acceptAll_eq
      (m.run (ps.map .send)).funnel.waiting
    rw [received, heq, run_send_of_empty hfunnel]
    rfl
  exact (handing_received hfunnel clock ps).2.release (Capped.le_def.2 (by omega))
    (received_clock _ clock) (by rw [funnel_submit, hfunnel]) hdrained

theorem Scheduler.received_submit (hfunnel : m.funnel = Funnel.empty) (clock : Clock)
    (ps : List Parcel) :
    (m.run (ps.map .submit)).received clock
      = { m.run (ps.map .submit) with clock, funnel := Funnel.empty } := by
  rw [received, atIntake, funnel_submit, hfunnel]
  rfl

/-- Accepted damage is dated by the tick on which it is taken in. -/
theorem Scheduler.dates_apart (hfunnel : m.funnel = Funnel.empty) (clock : Clock) {i : Intake}
    (hi : i ∈ m.intakes (ps.map .submit)) {v : Acceptance} (hv : i.verdict = .accepted v) :
    ((m.run (ps.map .submit)).received clock).Dates i.parcel.id m.clock.now ∧
      ((m.run (ps.map .send)).received clock).Dates i.parcel.id clock.now := by
  rw [intakes_submit] at hi
  have hmem := mem_zip_of_mem_intakeAll hi
  rw [hv] at hmem
  constructor
  · rw [received_submit hfunnel, run_submit]
    exact dates_acceptAll m ps _ (Or.inr ⟨_, _, hmem, rfl⟩)
  · have hverdicts := (handing_received hfunnel clock ps).1
    rw [run_send_of_empty hfunnel] at hverdicts ⊢
    rw [← hverdicts] at hmem
    exact dates_acceptAll (({ m with funnel := ⟨ps, false⟩ } : Scheduler).atIntake clock) ps _
      (Or.inr ⟨_, _, hmem, rfl⟩)

variable {ω η : Type} [Ground ω] [Listener η]

theorem Scheduler.advance_apart (hfunnel : m.funnel = Funnel.empty)
    (hclock : m.clock.advance = .ok clock) (ps : List Parcel) :
    (m.run (ps.map .submit)).clock.advance = .ok clock ∧
      (m.run (ps.map .send)).clock.advance = .ok clock := by
  rw [run_submit, acceptAll_clock, run_send_of_empty hfunnel]
  exact ⟨hclock, hclock⟩

/-- Where the funnel is empty, submitting damage comes to the same as sending it. -/
theorem Scheduler.handover (hfunnel : m.funnel = Funnel.empty)
    (hclock : m.clock.advance = .ok clock) (ps : List Parcel) (world : ω) (listener : η) :
    ∃ a b : Ticked ω η, (m.run (ps.map .submit)).tick world listener = .ok a ∧
      (m.run (ps.map .send)).tick world listener = .ok b ∧ Handover m ps a b := by
  obtain ⟨hadvance, hadvance'⟩ := advance_apart hfunnel hclock ps
  obtain ⟨hrelease, htwins⟩ := twins_prepared hfunnel hclock ps
  obtain ⟨a, b, ha, hb, hintake, hintake', hticks⟩ := Likeness.ticks_of_prepared
    (L := Likeness.bySubmission (ps.map Parcel.id) m.clock.now clock.now) hadvance hadvance'
    hrelease htwins (Likeness.grounds_self (fun _ => rfl) world) listener listener
  obtain ⟨clock', hclock', htick, -⟩ := tick_eq_ok ha
  obtain rfl := Except.ok.inj (hclock'.symm.trans hadvance)
  have hquiet : a.report.intake = [] := by
    rw [hintake, takeIn, funnel_submit, hfunnel]
    rfl
  have hreport := hticks.report
  rw [hquiet] at hreport
  refine ⟨a, b, ha, hb, ⟨hquiet, ?_⟩, ?_, ?_, ?_, fun i hi v hv => ?_, ?_⟩
  · rw [hintake', (handing_received hfunnel clock' ps).1, intakes_submit, map_verdict_intakeAll]
  · rw [htick, Clock.now_of_advance hclock]
  · exact htick ▸ Likeness.takenInLater_of_reports hreport
  · obtain ⟨ts, hworld, hworld'⟩ := hticks.worlds
    rw [hworld, hworld']
  · obtain ⟨hearly, hlate⟩ := dates_apart hfunnel clock' hi hv
    exact ⟨hearly.tick ha hadvance, htick ▸ hlate.tick hb hadvance'⟩
  · exact htick ▸ Twins.sameCourse hticks.scheduler

/-- If no task of the damage is due, the two ticks do not differ at all but for reporting the
    verdicts. -/
theorem Scheduler.Handover.same_tick {a b : Ticked ω η} (h : m.Handover ps a b)
    (hfunnel : m.funnel = Funnel.empty) (hclock : m.clock.advance = .ok clock) {world : ω}
    {listener : η} (ha : (m.run (ps.map .submit)).tick world listener = .ok a)
    (hb : (m.run (ps.map .send)).tick world listener = .ok b)
    (hdue : ∀ t ∈ ((m.run (ps.map .submit)).prepared clock).dueTasks, t.damage ∉ ps.map Parcel.id) :
    b.report = { a.report with intake := b.report.intake } ∧ b.listener = a.listener := by
  obtain ⟨hadvance, hadvance'⟩ := advance_apart hfunnel hclock ps
  obtain ⟨c, hc, -, -, hcompletions, -, -, hlistener⟩ := tick_eq_ok ha
  obtain ⟨c', hc', -, -, hcompletions', -, -, hlistener'⟩ := tick_eq_ok hb
  obtain rfl := Except.ok.inj (hc.symm.trans hadvance)
  obtain rfl := Except.ok.inj (hc'.symm.trans hadvance')
  obtain ⟨-, hshots, -⟩ := Likeness.fire
    (L := Likeness.bySubmission (ps.map Parcel.id) m.clock.now c'.now)
    (twins_prepared hfunnel hclock ps).2 (Likeness.grounds_self (fun _ => rfl) world)
  have hsame : b.report.completions = a.report.completions := by
    rw [hcompletions, hcompletions']
    refine Likeness.completionsOf_eq hshots fun x hx => hdue _ ?_
    have htask : x.task ∈ (((m.run (ps.map .submit)).prepared c').dueShots world).map Shot.task :=
      List.mem_map_of_mem hx
    rwa [dueShots, map_task_shots] at htask
  refine ⟨?_, by rw [hlistener, hlistener', hsame]⟩
  have hrest : { b.report with intake := [] }
      = { a.report with completions := b.report.completions } := h.report.rest
  calc b.report = { { b.report with intake := [] } with intake := b.report.intake } := rfl
    _ = { a.report with intake := b.report.intake } := by rw [hrest, hsame]

end Apart

/-! ## Every reachable state -/

section Reachable

open Scheduler

variable {settings : Regeneration} {seed : Tick} {s : Scheduler}

theorem Scheduler.funnel_run (fresh : Scheduler.new settings seed = .ok s) {deeds : List Deed}
    (hempty : (s.run deeds).funnel.isEmpty = true) : (s.run deeds).funnel = Funnel.empty := by
  obtain ⟨-, -, -, -, hfunnel, -⟩ := Scheduler.new_eq fresh
  have hopen := (parcels_run hfunnel deeds).1
  have hwaiting := List.isEmpty_iff.1 hempty
  generalize (s.run deeds).funnel = funnel at hopen hwaiting
  obtain ⟨waiting, closed⟩ := funnel
  subst hopen hwaiting
  rfl

/-- Every task underway is of damage that was handed in. -/
theorem Scheduler.handedIn_of_mem_liveTasks (fresh : Scheduler.new settings seed = .ok s)
    (deeds : List Deed) {t : Task} (ht : t ∈ (s.run deeds).liveTasks) :
    t.damage ∈ (handedIn deeds).map Parcel.id := by
  have htaken := kept_taken.run fresh (fun _ ht => absurd ht List.not_mem_nil) deeds
    fun _ _ _ _ => trivial
  obtain ⟨i, hi, hid⟩ := List.mem_map.1 (htaken t ht)
  exact List.mem_map.2 ⟨i.parcel, handedIn_of_mem_intakes fresh hi, hid⟩

/-- After damage was submitted, no task of damage with a new identifier fires on the next tick. -/
theorem Scheduler.notMem_of_due (fresh : Scheduler.new settings seed = .ok s) (deeds : List Deed)
    {ps : List Parcel} (hnew : ∀ p ∈ ps, p.id ∉ (handedIn deeds).map Parcel.id) {clock : Clock}
    (hlast : clock.now.val < 18446744073709551615) {t : Task}
    (ht : t ∈ ((s.run (deeds ++ ps.map .submit)).prepared clock).dueTasks) :
    t.damage ∉ ps.map Parcel.id := by
  have hagenda := mem_agenda_of_due fresh _ hlast ht
  obtain ⟨_, _, _, _, heq⟩ := (s.run deeds).acceptAll_eq ps
  rw [run_append, run_submit, heq] at hagenda
  replace hagenda : t ∈ (s.run deeds).agenda.items := hagenda
  have hold := handedIn_of_mem_liveTasks fresh deeds
    (show t ∈ (s.run deeds).liveTasks from List.mem_append_right _ hagenda)
  intro hmem
  obtain ⟨p, hp, hid⟩ := List.mem_map.1 hmem
  exact hnew p hp (hid ▸ hold)

/-- **Damage submitted and damage sent.** In every state that a run reaches in which the funnel is
    empty, and as long as the next tick is not the last there is, submitting damage and running a
    tick comes to the same as sending the damage and running the tick. From then on the schedulers
    differ in when they say that the damage was taken in, and in nothing else. If the damage has new
    identifiers, the reports on the tick itself differ only in its verdicts. -/
theorem submitted_as_sent (fresh : Scheduler.new settings seed = .ok s) (deeds : List Deed)
    (empty : (s.run deeds).funnel.isEmpty = true)
    (ahead : (s.run deeds).clock.now.val + 1 < 18446744073709551615) (ps : List Parcel)
    {ω η : Type} [Ground ω] [Listener η] (world : ω) (listener : η) :
    ∃ a b : Ticked ω η, (s.run (deeds ++ ps.map .submit)).tick world listener = .ok a ∧
      (s.run (deeds ++ ps.map .send)).tick world listener = .ok b ∧
      Handover (s.run deeds) ps a b ∧
      ((∀ p ∈ ps, p.id ∉ (handedIn deeds).map Parcel.id) →
        b.report = { a.report with intake := b.report.intake } ∧ b.listener = a.listener) := by
  have hfunnel := funnel_run fresh empty
  obtain ⟨clock, hclock⟩ : ∃ clock, (s.run deeds).clock.advance = .ok clock :=
    ⟨_, if_pos (show (s.run deeds).clock.now.val < 18446744073709551615 by omega)⟩
  have hnow := Clock.now_of_advance hclock
  obtain ⟨a, b, ha, hb, hab⟩ := handover hfunnel hclock ps world listener
  rw [run_append, run_append]
  refine ⟨a, b, ha, hb, hab, fun hnew => hab.same_tick hfunnel hclock ha hb fun t ht => ?_⟩
  rw [← run_append] at ht
  exact notMem_of_due fresh deeds hnew (by omega) ht

/-- Three parcels, one of which is discarded, reach a scheduler whose drain still waits for its next
    release and has nothing to release. Submitted they are said to be taken in a tick earlier than
    sent; their completions differ in nothing else. -/
theorem submitted_as_sent_while_draining : ∃ s, Scheduler.new Regeneration.default 7 = .ok s ∧
    let tick : Deed := .tick (Atlas.empty []) Journal.empty
    let deeds : List Deed := [.setSpeed 10, .submit (quarried 1 [(0, 0)]), tick]
    let ps := [quarried 2 [(0, 1), (1, 0)], quarried 3 [(0, 0)], quarried 4 [(2, 0)]]
    let t := s.run deeds
    let completed := fun hand =>
      ((s.reports (deeds ++ ps.map hand ++ List.replicate 30 tick)).flatMap
        TickReport.completions).map fun c => (c.damage.toNat, c.submitted.val, c.completed.val)
    t.funnel.isEmpty = true ∧ t.clock.now.val + 1 < 18446744073709551615 ∧
      t.drain.phase = .draining 3 ∧ t.layers.isEmpty = true ∧
      (∀ p ∈ ps, p.id ∉ (handedIn deeds).map Parcel.id) ∧
      (∃ a b : Scheduler.Ticked Atlas Journal,
        (s.run (deeds ++ ps.map .submit)).tick (Atlas.empty []) Journal.empty = .ok a ∧
        (s.run (deeds ++ ps.map .send)).tick (Atlas.empty []) Journal.empty = .ok b ∧
        t.Handover ps a b ∧ b.report = { a.report with intake := b.report.intake }) ∧
      completed .submit = [(1, 0, 2), (2, 1, 15), (4, 1, 18)] ∧
      completed .send = [(1, 0, 2), (2, 2, 15), (4, 2, 18)] := by
  refine ⟨_, rfl, by decide +kernel, by decide +kernel, by decide +kernel, by decide +kernel,
    by decide +kernel, ?_, by decide +kernel, by decide +kernel⟩
  obtain ⟨a, b, ha, hb, hab, hsame⟩ := @submitted_as_sent Regeneration.default 7 _ rfl
    [.setSpeed 10, .submit (quarried 1 [(0, 0)]), .tick (Atlas.empty []) Journal.empty]
    (by decide +kernel) (by decide +kernel)
    [quarried 2 [(0, 1), (1, 0)], quarried 3 [(0, 0)], quarried 4 [(2, 0)]] _ _ _ _
    (Atlas.empty []) Journal.empty
  exact ⟨a, b, ha, hb, hab, (hsame (by decide +kernel)).1⟩

end Reachable

end Mend
