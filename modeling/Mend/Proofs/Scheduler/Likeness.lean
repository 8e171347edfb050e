import Mathlib.Data.List.Forall2
import Mend.Proofs.Ledger.Counting
import Mend.Proofs.Scheduler.History

set_option autoImplicit false

/-! # Schedulers that differ in their records only

Two schedulers are *twins* if they agree in everything but the ledger, and the ledger only in what
its records say. A `Likeness` fixes how the records of twins may differ, and which outcomes of the
same task keep that difference: like records have the same number of cells to come out, so twins
open and close their records together. Taking in damage, releasing a layer and firing what is due
keep twins twins, whatever they do to the two grounds and tell the two listeners, as long as the
outcomes stay alike (`Likeness.tick`); and so does every run (`Likeness.run`). -/

namespace Mend

/-- How the records of two schedulers may differ, and the outcomes of the tasks they fire. -/
structure Likeness where
  /-- The records of the damage with the given identifier. -/
  records : DamageId → Record → Record → Prop
  outcomes : Outcome → Outcome → Prop
  same : ∀ id r, records id r r
  remaining : ∀ {id r r'}, records id r r' → r'.remaining = r.remaining
  resolve : ∀ {id r r' o o'}, records id r r' → outcomes o o' →
    records id (r.resolve o) (r'.resolve o')

/-- Two schedulers agree in everything but their records, and the relation holds of the records
    that they have of the same damage. -/
structure Scheduler.Twins (R : DamageId → Record → Record → Prop) (s s' : Scheduler) : Prop where
  rest : s' = { s with ledger := s'.ledger }
  records : ∀ id, Option.Rel (R id) s.ledger.records[id]? s'.ledger.records[id]?

/-! ## What the ledger does not decide -/

namespace Scheduler

/-- Neither the verdict on damage nor what is pending and what waits afterwards depends on the
    clock, the drain, the ledger or the funnel. -/
theorem accept_apart (s s' : Scheduler)
    (h : s' = { s with
      clock := s'.clock, drain := s'.drain, ledger := s'.ledger, funnel := s'.funnel })
    (id : DamageId) (d : Damage) :
    (∃ v pending, s.accept id d = (v, { s with pending }) ∧
      s'.accept id d = (v, { s' with pending })) ∨
    (∃ (a : Acceptance) (pending : Pending) (layers : List Layer) (r : Record), r.damage = id ∧
      s.accept id d
        = (.accepted a, { s with pending }.enqueue { r with submitted := s.clock.now } layers) ∧
      s'.accept id d
        = (.accepted a,
          { s' with pending }.enqueue { r with submitted := s'.clock.now } layers)) := by
  obtain ⟨clock, drain, ledger, funnel, rfl⟩ : ∃ clock drain ledger funnel,
      s' = { s with clock, drain, ledger, funnel } := ⟨_, _, _, _, h⟩
  simp only [accept]
  split
  · exact Or.inl ⟨_, s.pending, rfl, rfl⟩
  · split
    · exact Or.inl ⟨_, _, rfl, rfl⟩
    · exact Or.inr ⟨_, _, _,
        { damage := id, world := d.world, origin := d.origin, intensity := d.intensity,
          remaining := _, tally := Tally.zero, submitted := s.clock.now }, rfl, rfl, rfl⟩

theorem foldl_scheduleTask_ledger (ts : List Task) (s : Scheduler) (ledger : Ledger) :
    ts.foldl scheduleTask { s with ledger } = { ts.foldl scheduleTask s with ledger } := by
  induction ts generalizing s with
  | nil => rfl
  | cons t rest ih => exact ih (s.scheduleTask t)

/-- What a release does depends on the drain only through what polling it brings, and not on the
    ledger. -/
theorem release_apart (s s' : Scheduler)
    (h : s' = { s with drain := s'.drain, ledger := s'.ledger })
    (hpoll : s'.drain.poll s.clock.now s.layers = s.drain.poll s.clock.now s.layers) :
    s'.release = (s.release.1, { s.release.2 with ledger := s'.ledger }) := by
  obtain ⟨drain, ledger, rfl⟩ : ∃ drain ledger, s' = { s with drain, ledger } := ⟨_, _, h⟩
  simp only [release]
  simp only at hpoll
  rw [hpoll]
  split
  · rfl
  · rw [← foldl_scheduleTask_ledger]

end Scheduler

/-! ## Like grounds, firings and reports -/

namespace Likeness

/-- How tasks come out that are fired one after the other. -/
def outcomesOf {ω : Type} [Ground ω] (world : ω) : List Task → List Outcome
  | [] => []
  | t :: rest =>
    (Scheduler.fire world t).1 :: outcomesOf (Scheduler.fire world t).2 rest

variable (L : Likeness)

/-- On two grounds all tasks come out alike, in whatever order they are fired. -/
def Grounds {ω ω' : Type} [Ground ω] [Ground ω'] (world : ω) (world' : ω') : Prop :=
  ∀ ts, List.Forall₂ L.outcomes (outcomesOf world ts) (outcomesOf world' ts)

/-- The two completions are those for like records of the damage with the given identifier. -/
def Completed (id : DamageId) (c c' : Completion) : Prop :=
  ∃ (s : Scheduler) (r r' : Record), L.records id r r' ∧ c = s.completion r ∧
    c' = s.completion r'

/-- The two firings are of the same task on the same tick and come out alike. -/
structure Shots (x x' : Shot) : Prop where
  tick : x'.tick = x.tick
  task : x'.task = x.task
  outcome : L.outcomes x.outcome x'.outcome
  completion : Option.Rel (L.Completed x.task.damage) x.completion x'.completion

/-- The two deeds are the same but for the listeners and, where the grounds are alike, these. -/
inductive Deeds : Deed → Deed → Prop where
  | submit (p : Parcel) : Deeds (.submit p) (.submit p)
  | send (p : Parcel) : Deeds (.send p) (.send p)
  | setSpeed (speed : Speed) : Deeds (.setSpeed speed) (.setSpeed speed)
  | tick {ω ω' η η' : Type} [Ground ω] [Ground ω'] [Listener η] [Listener η'] {world : ω}
      {world' : ω'} (alike : L.Grounds world world') (listener : η) (listener' : η') :
      Deeds (.tick world listener) (.tick world' listener')

/-- The two reports are on ticks with like firings, and the same in everything else. -/
structure Reports (a a' : TickReport) : Prop where
  tick : a'.tick = a.tick
  intake : a'.intake = a.intake
  release : a'.release = a.release
  fired : ∃ xs xs', List.Forall₂ L.Shots xs xs' ∧
    a.completions = completionsOf xs ∧ a'.completions = completionsOf xs' ∧
    a.tally = (xs.map Shot.outcome).foldl Tally.record Tally.zero ∧
    a'.tally = (xs'.map Shot.outcome).foldl Tally.record Tally.zero

variable {L}

/-- Where every outcome is like itself, a ground is like itself. -/
theorem grounds_self (h : ∀ o, L.outcomes o o) {ω : Type} [Ground ω] (world : ω) :
    L.Grounds world world :=
  fun _ => List.forall₂_same.2 fun o _ => h o

theorem map_tick_task_of_shots {xs xs' : List Shot} (h : List.Forall₂ L.Shots xs xs') :
    xs'.map (fun x => (x.tick, x.task)) = xs.map fun x => (x.tick, x.task) := by
  induction h with
  | nil => rfl
  | cons hx _ ih => rw [List.map_cons, List.map_cons, ih, hx.tick, hx.task]

theorem completionsOf_shots {xs xs' : List Shot} (h : List.Forall₂ L.Shots xs xs') :
    List.Forall₂ (fun c c' => ∃ id, L.Completed id c c') (completionsOf xs)
      (completionsOf xs') := by
  refine List.rel_filterMap (fun x x' hx => ?_) h
  have hcompletion := hx.completion
  generalize x.completion = c, x'.completion = c' at hcompletion
  cases hcompletion with
  | none => exact .none
  | some hc => exact .some ⟨_, hc⟩

/-! ## What keeps twins twins -/

open Scheduler

variable {s s' : Scheduler}

theorem twins_self (s : Scheduler) : s.Twins L.records s where
  rest := rfl
  records id := by
    cases s.ledger.records[id]? with
    | none => exact .none
    | some r => exact .some (L.same id r)

theorem rel_register {l l' : Ledger}
    (h : ∀ id, Option.Rel (L.records id) l.records[id]? l'.records[id]?) {r r' : Record}
    (hdamage : r'.damage = r.damage) (hlike : L.records r.damage r r') (id : DamageId) :
    Option.Rel (L.records id) (l.register r).records[id]? (l'.register r').records[id]? := by
  have hremaining := L.remaining hlike
  by_cases hzero : r.remaining.val = 0
  · simpa [Ledger.register, hremaining, hzero] using h id
  · rw [Ledger.getElem?_register hzero, Ledger.getElem?_register (hremaining ▸ hzero), hdamage]
    split_ifs with hid
    · exact .some (hid ▸ hlike)
    · exact h id

theorem accept (h : s.Twins L.records s') (id : DamageId) (d : Damage) :
    (s'.accept id d).1 = (s.accept id d).1 ∧
      (s.accept id d).2.Twins L.records (s'.accept id d).2 := by
  obtain ⟨ledger, rfl⟩ : ∃ ledger, s' = { s with ledger } := ⟨_, h.rest⟩
  have hrecords := h.records
  rcases s.accept_apart { s with ledger } rfl id d with
    ⟨v, pending, hs, hs'⟩ | ⟨a, pending, layers, r, -, hs, hs'⟩
  · rw [hs, hs']
    exact ⟨rfl, rfl, hrecords⟩
  · rw [hs, hs']
    exact ⟨rfl, rfl, fun id => rel_register hrecords rfl (L.same _ _) id⟩

theorem acceptAll (h : s.Twins L.records s') (ps : List Parcel) :
    (s'.acceptAll ps).1 = (s.acceptAll ps).1 ∧ s'.intakeAll ps = s.intakeAll ps ∧
      (s.acceptAll ps).2.Twins L.records (s'.acceptAll ps).2 := by
  induction ps generalizing s s' with
  | nil => exact ⟨rfl, rfl, h⟩
  | cons p rest ih =>
      have hclock : s'.clock = s.clock := by rw [h.rest]
      obtain ⟨hverdict, hone⟩ := accept h p.id p.damage
      obtain ⟨hverdicts, hintakes, hrest⟩ := ih hone
      refine ⟨?_, ?_, hrest⟩
      · simp only [Scheduler.acceptAll, hverdict, hverdicts]
      · simp only [intakeAll, hverdict, hclock, hintakes]

/-- Releasing a layer makes twins of schedulers whose drains differ, if polling them brings the
    same. -/
theorem release_of_poll (h : s' = { s with drain := s'.drain, ledger := s'.ledger })
    (hpoll : s'.drain.poll s.clock.now s.layers = s.drain.poll s.clock.now s.layers)
    (hrecords : ∀ id, Option.Rel (L.records id) s.ledger.records[id]? s'.ledger.records[id]?) :
    s'.release.1 = s.release.1 ∧ s.release.2.Twins L.records s'.release.2 := by
  obtain ⟨_, _, _, _, heq, -⟩ := s.release_eq
  rw [s.release_apart s' h hpoll]
  refine ⟨rfl, rfl, ?_⟩
  rw [heq]
  exact hrecords

theorem release (h : s.Twins L.records s') :
    s'.release.1 = s.release.1 ∧ s.release.2.Twins L.records s'.release.2 := by
  obtain ⟨ledger, rfl⟩ : ∃ ledger, s' = { s with ledger } := ⟨_, h.rest⟩
  exact release_of_poll rfl rfl h.records

theorem rel_resolve {l l' : Ledger}
    (h : ∀ id, Option.Rel (L.records id) l.records[id]? l'.records[id]?) (id : DamageId)
    {o o' : Outcome} (ho : L.outcomes o o') :
    Option.Rel (L.records id) (l.resolve id o).1 (l'.resolve id o').1 ∧
      ∀ k, Option.Rel (L.records k) (l.resolve id o).2.records[k]?
        (l'.resolve id o').2.records[k]? := by
  have hid := h id
  generalize hr : l.records[id]? = q, hr' : l'.records[id]? = q' at hid
  cases hid with
  | none =>
      rw [Ledger.resolve_of_not_contains hr, Ledger.resolve_of_not_contains hr']
      exact ⟨.none, h⟩
  | some hlike =>
      have hresolve := L.resolve hlike ho
      have hremaining := L.remaining hresolve
      constructor
      · rw [Ledger.resolve_fst hr, Ledger.resolve_fst hr', hremaining]
        split_ifs
        · exact .some hresolve
        · exact .none
      · intro k
        rw [Ledger.getElem?_resolve hr, Ledger.getElem?_resolve hr', hremaining]
        split_ifs with hk
        · exact .none
        · exact .some (hk ▸ hresolve)
        · exact h k

theorem settle (h : s.Twins L.records s') (t : Task) {o o' : Outcome} (ho : L.outcomes o o') :
    Option.Rel (L.Completed t.damage) (s.settle t o).1 (s'.settle t o').1 ∧
      (s.settle t o).2.Twins L.records (s'.settle t o').2 := by
  obtain ⟨ledger, rfl⟩ : ∃ ledger, s' = { s with ledger } := ⟨_, h.rest⟩
  obtain ⟨hclosed, hrecords⟩ := rel_resolve h.records t.damage ho
  refine ⟨?_, rfl, hrecords⟩
  show Option.Rel _ ((s.ledger.resolve t.damage o).1.map s.completion)
    ((ledger.resolve t.damage o').1.map s.completion)
  generalize (s.ledger.resolve t.damage o).1 = closed at hclosed ⊢
  generalize (ledger.resolve t.damage o').1 = closed' at hclosed ⊢
  cases hclosed with
  | none => exact .none
  | some hlike => exact .some ⟨s, _, _, hlike, rfl, rfl⟩

variable {ω ω' : Type} [Ground ω] [Ground ω'] {world : ω} {world' : ω'}

theorem shots (h : s.Twins L.records s') (ts : List Task)
    (houtcomes : List.Forall₂ L.outcomes (outcomesOf world ts) (outcomesOf world' ts)) :
    List.Forall₂ L.Shots (s.shots world ts) (s'.shots world' ts) ∧
      (s.settleAll (s.shots world ts)).Twins L.records
        (s'.settleAll (s'.shots world' ts)) := by
  induction ts generalizing s s' world world' with
  | nil => exact ⟨.nil, h⟩
  | cons t rest ih =>
      obtain ⟨ho, hrest⟩ := List.forall₂_cons.1 houtcomes
      obtain ⟨hcompletion, hone⟩ := settle h t ho
      obtain ⟨hshots, htwins⟩ := ih hone hrest
      have hclock : s'.clock = s.clock := by rw [h.rest]
      exact ⟨.cons ⟨congrArg Clock.now hclock, rfl, ho, hcompletion⟩ hshots, htwins⟩

/-- Firing what is due. -/
theorem fire (h : s.Twins L.records s') (hgrounds : L.Grounds world world') :
    s'.dueTasks = s.dueTasks ∧ List.Forall₂ L.Shots (s.dueShots world) (s'.dueShots world') ∧
      (s.poised.settleAll (s.dueShots world)).Twins L.records
        (s'.poised.settleAll (s'.dueShots world')) := by
  obtain ⟨ledger, rfl⟩ : ∃ ledger, s' = { s with ledger } := ⟨_, h.rest⟩
  have hpoised : s.poised.Twins L.records ({ s with ledger } : Scheduler).poised := ⟨rfl, h.records⟩
  exact ⟨rfl, shots hpoised s.dueTasks (hgrounds s.dueTasks)⟩

/-- Taking in what waits. -/
theorem takeIn (h : s.Twins L.records s') (clock : Clock) :
    ({ s' with clock } : Scheduler).takeIn.1 = ({ s with clock } : Scheduler).takeIn.1 ∧
      (s'.atIntake clock).intakeAll s'.funnel.waiting
        = (s.atIntake clock).intakeAll s.funnel.waiting ∧
      ({ s with clock } : Scheduler).takeIn.2.Twins L.records
        ({ s' with clock } : Scheduler).takeIn.2 := by
  obtain ⟨ledger, rfl⟩ : ∃ ledger, s' = { s with ledger } := ⟨_, h.rest⟩
  have hstart : (s.atIntake clock).Twins L.records
      (({ s with ledger } : Scheduler).atIntake clock) := ⟨rfl, h.records⟩
  exact acceptAll hstart s.funnel.waiting

variable {η η' : Type} [Listener η] [Listener η']

variable (L) in
/-- Two ticks end alike: their reports, but for what they took in, the schedulers they leave, and
    the tasks they fire on the two grounds. -/
structure Ticks (world : ω) (world' : ω') (r : Ticked ω η) (r' : Ticked ω' η') : Prop where
  report : L.Reports r.report { r'.report with intake := r.report.intake }
  scheduler : r.scheduler.Twins L.records r'.scheduler
  worlds : ∃ ts : List Task, r.world = ts.foldl (fun w t => (Scheduler.fire w t).2) world ∧
    r'.world = ts.foldl (fun w t => (Scheduler.fire w t).2) world'

/-- Two ticks end alike if they come to their firing as twins, having released the same. -/
theorem ticks_of_prepared {clock : Clock} (hs : s.clock.advance = .ok clock)
    (hs' : s'.clock.advance = .ok clock)
    (hrelease : ({ s' with clock } : Scheduler).takeIn.2.release.1
      = ({ s with clock } : Scheduler).takeIn.2.release.1)
    (h : (s.prepared clock).Twins L.records (s'.prepared clock))
    (hgrounds : L.Grounds world world') (listener : η) (listener' : η') :
    ∃ r r', s.tick world listener = .ok r ∧ s'.tick world' listener' = .ok r' ∧
      r.report.intake = ({ s with clock } : Scheduler).takeIn.1 ∧
      r'.report.intake = ({ s' with clock } : Scheduler).takeIn.1 ∧
      L.Ticks world world' r r' := by
  obtain ⟨hdue, hshots, htwins⟩ := fire h hgrounds
  obtain ⟨c, hc, htick⟩ := (s.tick_cases world listener).resolve_left
    (by rintro ⟨e, he, -⟩; rw [hs] at he; cases he)
  obtain ⟨c', hc', htick'⟩ := (s'.tick_cases world' listener').resolve_left
    (by rintro ⟨e, he, -⟩; rw [hs'] at he; cases he)
  obtain rfl := Except.ok.inj (hc.symm.trans hs)
  obtain rfl := Except.ok.inj (hc'.symm.trans hs')
  refine ⟨_, _, htick, htick', rfl, rfl, ⟨rfl, rfl, hrelease, _, _, hshots, rfl, rfl, rfl, rfl⟩,
    htwins, _, rfl, ?_⟩
  rw [hdue]

/-- A tick of twins fails for both or ends alike for both. -/
theorem tick (h : s.Twins L.records s') (hgrounds : L.Grounds world world') (listener : η)
    (listener' : η') :
    (∃ e, s.tick world listener = .error e ∧ s'.tick world' listener' = .error e) ∨
    (∃ r r', s.tick world listener = .ok r ∧ s'.tick world' listener' = .ok r' ∧
      r'.report.intake = r.report.intake ∧ L.Ticks world world' r r') := by
  have hclock : s'.clock = s.clock := by rw [h.rest]
  cases hadvance : s.clock.advance with
  | error e =>
      obtain ⟨f, hf, htick⟩ := (s.tick_cases world listener).resolve_right
        (by rintro ⟨c, hc, -⟩; rw [hadvance] at hc; cases hc)
      obtain ⟨f', hf', htick'⟩ := (s'.tick_cases world' listener').resolve_right
        (by rintro ⟨c, hc, -⟩; rw [hclock, hadvance] at hc; cases hc)
      rw [hclock, hf] at hf'
      cases hf'
      exact Or.inl ⟨_, htick, htick'⟩
  | ok clock =>
      obtain ⟨hverdicts, -, htwins⟩ := takeIn h clock
      obtain ⟨hrelease, hprepared⟩ := release htwins
      obtain ⟨r, r', hr, hr', hintake, hintake', hticks⟩ :=
        ticks_of_prepared hadvance (hclock ▸ hadvance) hrelease hprepared hgrounds listener
          listener'
      exact Or.inr ⟨r, r', hr, hr', by rw [hintake, hintake', hverdicts], hticks⟩

theorem after_send (h : s.Twins L.records s') (p : Parcel) :
    (s.after (.send p)).Twins L.records (s'.after (.send p)) := by
  obtain ⟨ledger, rfl⟩ : ∃ ledger, s' = { s with ledger } := ⟨_, h.rest⟩
  have hrecords := h.records
  simp only [Scheduler.after, send]
  cases s.funnel.send p.id p.damage with
  | error e => exact ⟨rfl, hrecords⟩
  | ok funnel => exact ⟨rfl, hrecords⟩

/-- A tick keeps twins twins, and takes in the same and fires alike for both. -/
theorem after_tick (h : s.Twins L.records s') (hgrounds : L.Grounds world world') (listener : η)
    (listener' : η') :
    (s.after (.tick world listener)).Twins L.records (s'.after (.tick world' listener')) ∧
      s'.intakesOn (.tick world' listener') = s.intakesOn (.tick world listener) ∧
      List.Forall₂ L.Shots (s.firedOn (.tick world listener))
        (s'.firedOn (.tick world' listener')) := by
  have hclock : s'.clock = s.clock := by rw [h.rest]
  cases hadvance : s.clock.advance with
  | error e =>
      obtain ⟨hafter, hintakes, hfired⟩ := tick_error hadvance world listener
      obtain ⟨hafter', hintakes', hfired'⟩ := tick_error (hclock ▸ hadvance) world' listener'
      rw [hafter, hafter', hintakes, hintakes', hfired, hfired']
      exact ⟨h, rfl, .nil⟩
  | ok clock =>
      have hadvance' : s'.clock.advance = .ok clock := hclock ▸ hadvance
      obtain ⟨-, hintakes, htwins⟩ := takeIn h clock
      obtain ⟨-, hshots, hafter⟩ := fire (release htwins).2 hgrounds
      rw [Scheduler.after_tick hadvance, Scheduler.after_tick hadvance', intakesOn_tick hadvance,
        intakesOn_tick hadvance', firedOn, firedOn, hadvance, hadvance']
      exact ⟨hafter, hintakes, hshots⟩

/-- Like deeds keep twins twins and leave like traces. -/
theorem after (h : s.Twins L.records s') {d d' : Deed} (hdeeds : L.Deeds d d') :
    (s.after d).Twins L.records (s'.after d') ∧ s'.intakesOn d' = s.intakesOn d ∧
      List.Forall₂ L.Shots (s.firedOn d) (s'.firedOn d') ∧
      List.Forall₂ L.Reports (s.reportsOn d) (s'.reportsOn d') := by
  cases hdeeds with
  | submit p =>
      have hclock : s'.clock = s.clock := by rw [h.rest]
      obtain ⟨hverdict, htwins⟩ := accept h p.id p.damage
      refine ⟨htwins, ?_, .nil, .nil⟩
      simp only [intakesOn, hverdict, hclock]
  | send p => exact ⟨after_send h p, rfl, .nil, .nil⟩
  | setSpeed speed =>
      obtain ⟨ledger, rfl⟩ : ∃ ledger, s' = { s with ledger } := ⟨_, h.rest⟩
      exact ⟨⟨rfl, h.records⟩, rfl, .nil, .nil⟩
  | tick alike listener listener' =>
      obtain ⟨htwins, hintakes, hshots⟩ := after_tick h alike listener listener'
      refine ⟨htwins, hintakes, hshots, ?_⟩
      rcases tick h alike listener listener' with
        ⟨e, htick, htick'⟩ | ⟨r, r', htick, htick', hintake, hticks⟩
      · rw [reportsOn, reportsOn, htick, htick']
        exact .nil
      · have hreport := hticks.report
        rw [← hintake] at hreport
        rw [reportsOn, reportsOn, htick, htick']
        exact .cons hreport .nil

theorem run (h : s.Twins L.records s') {deeds deeds' : List Deed}
    (hdeeds : List.Forall₂ L.Deeds deeds deeds') :
    (s.run deeds).Twins L.records (s'.run deeds') ∧ s'.intakes deeds' = s.intakes deeds ∧
      List.Forall₂ L.Shots (s.fired deeds) (s'.fired deeds') ∧
      List.Forall₂ L.Reports (s.reports deeds) (s'.reports deeds') := by
  induction hdeeds generalizing s s' with
  | nil => exact ⟨h, rfl, .nil, .nil⟩
  | @cons d d' deeds deeds' hdeed _ ih =>
      obtain ⟨htwins, hintakes, hshots, hreports⟩ := after h hdeed
      obtain ⟨htwins', hintakes', hshots', hreports'⟩ := ih htwins
      refine ⟨htwins', ?_, List.rel_append hshots hshots', List.rel_append hreports hreports'⟩
      exact congrArg₂ (· ++ ·) hintakes hintakes'

end Likeness

end Mend
