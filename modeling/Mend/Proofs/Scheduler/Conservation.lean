import Mathlib.Algebra.Ring.Nat
import Mend.Journal
import Mend.Proofs.Scheduler.Completion

set_option autoImplicit false

/-! # Nothing that is handed in is lost

Every parcel handed in to a scheduler is in exactly one place: it waits in the funnel, it was
discarded, it is in the ledger, or it was completed. What is sent, by whomever, comes out of the
funnel in the order in which it was sent, on the first tick after it was sent. As many cells have
come out or are pending as were accepted. A shutdown counts whatever has not come to an end
(`nothing_lost`).

Each of these is an equation between what a run has left behind and what its last state holds. It is
proved for a single deed and carried through the run from the right. -/

namespace Mend

/-- The damage that a verdict discards. -/
def Verdict.discarded? : Verdict → Option DamageId
  | .accepted _ => none
  | .discarded id _ => some id

/-- The damage that a verdict accepts. -/
def Verdict.accepted? : Verdict → Option DamageId
  | .accepted a => some a.damage
  | .discarded _ _ => none

/-- The number of cells that a verdict accepts. -/
def Verdict.cells : Verdict → Nat
  | .accepted a => a.cells.val
  | .discarded _ _ => 0

/-- The number of cells that came out on a tick. -/
def TickReport.cells (r : TickReport) : Nat :=
  r.tally.restored.val + r.tally.skipped.val + r.tally.failed.val

namespace Scheduler

/-- What a deed sends, with the tick that ran last. -/
def sendsOn (s : Scheduler) : Deed → List (Parcel × Tick)
  | .send p => [(p, s.clock.now)]
  | .submit _ | .setSpeed _ => []
  | @Deed.tick _ _ _ _ _ _ => []

/-- The verdicts that a deed gives: submitting returns one, and a tick reports those on what was
    sent. -/
def verdictsOn (s : Scheduler) : Deed → List Verdict
  | .submit p => [(s.accept p.id p.damage).1]
  | @Deed.tick _ _ _ _ world listener => match s.tick world listener with
    | .ok r => r.report.intake
    | .error _ => []
  | .send _ | .setSpeed _ => []

/-- What a run sends, in order. -/
def sends (s : Scheduler) (deeds : List Deed) : List (Parcel × Tick) := gather sendsOn s deeds

/-- The verdicts given in a run. -/
def verdicts (s : Scheduler) (deeds : List Deed) : List Verdict := gather verdictsOn s deeds

/-- The verdicts in a list of reports, with the tick of the report that lists them. -/
def delivered (rs : List TickReport) : List (DamageId × Nat) :=
  rs.flatMap fun r => r.intake.map fun v => (v.damage, r.tick.val)

/-- The completions in a list of reports. -/
def completed (rs : List TickReport) : List DamageId :=
  (rs.flatMap TickReport.completions).map Completion.damage

/-- The damage in progress. -/
def active (s : Scheduler) : List DamageId := s.ledger.records.keys

/-- A run of a scheduler conserves what it is given. -/
structure Conserves (s : Scheduler) (deeds : List Deed) : Prop where
  /-- What was sent is reported in the order in which it was sent, each parcel once and on the first
      tick after it was sent, or it still waits. -/
  delivered : delivered (s.reports deeds)
      ++ (s.run deeds).funnel.waiting.map (fun p => (p.id, (s.run deeds).clock.now.val + 1))
    = (s.sends deeds).map fun (p, tick) => (p.id, tick.val + 1)
  /-- What was handed in waits, was discarded, is in progress or was completed, each parcel in one
      of these ways and once. -/
  placed : ((s.run deeds).funnel.waiting.map Parcel.id
      ++ (s.verdicts deeds).filterMap Verdict.discarded? ++ (s.run deeds).active
      ++ completed (s.reports deeds)).Perm ((handedIn deeds).map Parcel.id)
  /-- Each tick tells its listener once of every completion that it reports, and of no other. -/
  told : ∀ (before : List Deed) {ω η : Type} [Ground ω] [Listener η] (world : ω) (listener : η)
    (r : Ticked ω η), (s.run before).tick world listener = .ok r →
    r.listener = Listener.hear listener r.report.completions
  /-- As many cells were accepted as have come out or are pending. -/
  cells : (∀ before d after, deeds = before ++ d :: after →
      ((s.run before).firedOn d).length < 4294967296) →
    ((s.verdicts deeds).map Verdict.cells).sum
      = ((s.reports deeds).map TickReport.cells).sum + (s.run deeds).stats.pendingCells
  /-- A shutdown drops what waits and takes nothing more. -/
  closed : (s.run deeds).shutdown.2.waiting = [] ∧
    ∀ id d, (s.run deeds).shutdown.2.send id d = .error (.closed id)
  /-- It counts what waited and what was in progress, so that everything is accounted for. -/
  counted : (s.run deeds).shutdown.1.unprocessed = (s.run deeds).funnel.waiting.length ∧
    (s.run deeds).shutdown.1.abandonedDamage = (s.run deeds).active.length ∧
    (handedIn deeds).length = (s.run deeds).shutdown.1.unprocessed
      + ((s.verdicts deeds).filterMap Verdict.discarded?).length
      + (s.run deeds).shutdown.1.abandonedDamage + (completed (s.reports deeds)).length

/-! ## The funnel -/

theorem damage_accept (s : Scheduler) (id : DamageId) (d : Damage) :
    (s.accept id d).1.damage = id := by
  rcases s.accept_cases id d with ⟨-, _, heq⟩ | ⟨-, a, _, _, heq, hid, -⟩
  · rw [heq]
    rfl
  · rw [heq]
    exact hid

theorem map_damage_acceptAll (s : Scheduler) (ps : List Parcel) :
    (s.acceptAll ps).1.map Verdict.damage = ps.map Parcel.id := by
  induction ps generalizing s with
  | nil => rfl
  | cons p rest ih => exact congrArg₂ (· :: ·) (s.damage_accept p.id p.damage) (ih _)

theorem delivered_append (rs rs' : List TickReport) :
    delivered (rs ++ rs') = delivered rs ++ delivered rs' :=
  List.flatMap_append

/-- What a deed reports of the damage that waits, and what waits afterwards, is what waited and what
    the deed sends. -/
theorem delivered_after {s : Scheduler} (hopen : s.funnel.closed = false) (d : Deed) :
    delivered (s.reportsOn d)
        ++ (s.after d).funnel.waiting.map (fun p => (p.id, (s.after d).clock.now.val + 1))
      = s.funnel.waiting.map (fun p => (p.id, s.clock.now.val + 1))
        ++ (s.sendsOn d).map fun (p, tick) => (p.id, tick.val + 1) := by
  cases d with
  | submit p =>
      obtain ⟨_, _, _, _, heq⟩ := s.accept_eq p.id p.damage
      simp [reportsOn, sendsOn, delivered, after, heq]
  | send p =>
      simp [reportsOn, sendsOn, delivered, after, send, Funnel.send, hopen]
  | setSpeed speed => simp [reportsOn, sendsOn, delivered, after, withSpeed]
  | tick world listener =>
      rcases s.tick_cases world listener with ⟨e, -, htick⟩ | ⟨clock, hclock, htick⟩
      · simp [reportsOn, sendsOn, delivered, after, htick]
      · have hnow := Clock.now_of_advance hclock
        have hdrained : (s.after (.tick world listener)).funnel.waiting = [] := by
          obtain ⟨_, _, _, _, _, _, heq⟩ := s.prepared_eq clock
          rw [after_tick hclock, settleAll_eq, poised, heq]
          rfl
        -- the report lists the verdicts on what waited, in order
        have hreported : delivered (s.reportsOn (.tick world listener))
            = s.funnel.waiting.map fun p => (p.id, clock.now.val) := by
          have hverdicts := congrArg (List.map fun id => (id, clock.now.val))
            ((s.atIntake clock).map_damage_acceptAll s.funnel.waiting)
          rw [List.map_map, List.map_map] at hverdicts
          rw [reportsOn, htick, delivered, List.flatMap_singleton]
          exact hverdicts
        rw [hreported, hdrained, hnow]
        rfl

/-- What a run reports of the damage it was sent, and what waits at its end, is what it was sent. -/
theorem delivered_run {s : Scheduler} (hfunnel : s.funnel = Funnel.empty) (deeds : List Deed) :
    delivered (s.reports deeds)
        ++ (s.run deeds).funnel.waiting.map (fun p => (p.id, (s.run deeds).clock.now.val + 1))
      = (s.sends deeds).map fun (p, tick) => (p.id, tick.val + 1) := by
  induction deeds using List.reverseRecOn with
  | nil =>
      rw [run, List.foldl_nil, hfunnel]
      rfl
  | append_singleton deeds d ih =>
      rw [run_concat, reports, gather_concat, ← reports, sends, gather_concat, ← sends,
        delivered_append, List.append_assoc, delivered_after (parcels_run hfunnel deeds).1,
        ← List.append_assoc, ih, List.map_append]

/-! ## Verdicts, completions and cells of a run -/

/-- The verdicts given in a run are those of its intake. -/
theorem map_verdict_intakes (s : Scheduler) (deeds : List Deed) :
    (s.intakes deeds).map Intake.verdict = s.verdicts deeds := by
  induction deeds generalizing s with
  | nil => rfl
  | cons d rest ih =>
      have hone : (s.intakesOn d).map Intake.verdict = s.verdictsOn d := by
        cases d with
        | tick world listener =>
            rcases s.tick_cases world listener with ⟨e, -, htick⟩ | ⟨clock, hclock, htick⟩
            · rw [intakesOn, verdictsOn, htick]
              rfl
            · rw [intakesOn_tick hclock, map_verdict_intakeAll, verdictsOn, htick]
              rfl
        | _ => rfl
      show (s.intakesOn d ++ (s.after d).intakes rest).map Intake.verdict
        = s.verdictsOn d ++ (s.after d).verdicts rest
      rw [List.map_append, hone, ih]

/-- The reports of a run list the completions that its firings bring about. -/
theorem completions_reports (s : Scheduler) (deeds : List Deed) :
    (s.reports deeds).flatMap TickReport.completions = completionsOf (s.fired deeds) := by
  induction deeds generalizing s with
  | nil => rfl
  | cons d rest ih =>
      have hone : (s.reportsOn d).flatMap TickReport.completions = completionsOf (s.firedOn d) := by
        cases d with
        | tick world listener =>
            rcases s.tick_cases world listener with ⟨e, hclock, htick⟩ | ⟨clock, hclock, htick⟩
            · rw [reportsOn, firedOn, htick, hclock]
              rfl
            · rw [reportsOn, firedOn, htick, hclock, List.flatMap_singleton]
        | _ => rfl
      show (s.reportsOn d ++ (s.after d).reports rest).flatMap TickReport.completions
        = completionsOf (s.firedOn d ++ (s.after d).fired rest)
      rw [List.flatMap_append, hone, ih, completionsOf, completionsOf, completionsOf,
        List.filterMap_append]

end Scheduler

/-! ## Cells -/

theorem count_outcomes (os : List Outcome) :
    os.count .restored + os.count .skipped + os.count .failed = os.length := by
  induction os with
  | nil => rfl
  | cons o rest ih =>
      rw [List.count_cons, List.count_cons, List.count_cons, List.length_cons, ← ih]
      cases o <;> simp <;> omega

/-- As long as a tick fires fewer tasks than a count can name, its report counts them all. -/
theorem Scheduler.cells_reportsOn (s : Scheduler) (d : Deed)
    (hsmall : (s.firedOn d).length < 4294967296) :
    ((s.reportsOn d).map TickReport.cells).sum = (s.firedOn d).length := by
  cases d with
  | tick world listener =>
      rcases s.tick_cases world listener with ⟨e, hclock, htick⟩ | ⟨clock, hclock, htick⟩
      · rw [reportsOn, firedOn, htick, hclock]
        rfl
      · obtain ⟨_, -, htells⟩ := tick_tells htick
        have hcount := htells.counted hsmall
        rw [reportsOn, htick, List.map_singleton, List.sum_singleton, TickReport.cells]
        exact (congrArg₂ (· + ·) (congrArg₂ (· + ·) (hcount .restored) (hcount .skipped))
          (hcount .failed)).trans ((count_outcomes _).trans (List.length_map _))
  | _ => rfl

/-- No deed of a run fires more than the run. -/
theorem Scheduler.length_firedOn_le (s : Scheduler) (before : List Deed) (d : Deed)
    (after : List Deed) :
    ((s.run before).firedOn d).length ≤ (s.fired (before ++ d :: after)).length := by
  rw [fired, gather_append, gather]
  simp only [List.length_append]
  omega

theorem Scheduler.cells_reports {s : Scheduler} {deeds : List Deed}
    (hsmall : ∀ before d after, deeds = before ++ d :: after →
      ((s.run before).firedOn d).length < 4294967296) :
    ((s.reports deeds).map TickReport.cells).sum = (s.fired deeds).length := by
  induction deeds using List.reverseRecOn with
  | nil => rfl
  | append_singleton deeds d ih =>
      have hbefore := ih fun before d' after heq =>
        hsmall before d' (after ++ [d]) (by rw [heq, List.append_assoc]; rfl)
      rw [reports, gather_concat, ← reports, fired, gather_concat, ← fired, List.map_append,
        List.sum_append, hbefore, cells_reportsOn _ d (hsmall deeds d [] rfl), List.length_append]

/-- The cells that were accepted are those of the tasks that have fired and of those underway. -/
theorem kept_cells : Kept NewParcel (fun is xs live _ =>
    ((is.map Intake.verdict).map Verdict.cells).sum = xs.length + live.length) where
  accept {is xs live s} h p hp := by
    have hlength := s.length_newTasks_le p.id p.damage
    have hsmall := hp.2
    rw [List.map_append, List.map_append, List.sum_append, h, List.length_append]
    rcases s.accept_cases p.id p.damage with ⟨hnil, _, heq⟩ | ⟨-, a, _, _, heq, -, hcells, -⟩
    · simp [heq, hnil, Verdict.cells]
    · have hval : a.cells.val = (s.newTasks p.id p.damage).length := by
        rw [hcells, Capped.val_clamp]
        omega
      simp [heq, Verdict.cells, hval]
      omega
  settle {is xs t live s} h o := by
    rw [h, List.length_append, List.length_cons, List.length_singleton]
    omega
  perm h hperm := by rw [h, hperm.length_eq]
  frame h _ _ _ := h

/-! ## Where the damage is -/

/-- A verdict is on the damage that was handed in. -/
theorem kept_named : Kept (fun _ _ => True)
    (fun is _ _ _ => ∀ i ∈ is, i.verdict.damage = i.parcel.id) where
  accept {is xs live s} h p _ i hi := by
    rcases List.mem_append.1 hi with hi | hi
    · exact h i hi
    · rw [List.mem_singleton.1 hi]
      exact s.damage_accept p.id p.damage
  settle h _ := h
  perm h _ := h
  frame h _ _ _ := h

theorem map_damage_of_named {is : List Intake} (h : ∀ i ∈ is, i.verdict.damage = i.parcel.id) :
    (is.map Intake.verdict).map Verdict.damage = is.map (·.parcel.id) := by
  rw [List.map_map]
  exact List.map_congr_left h

section Verdicts

variable {vs : List Verdict} {id : DamageId}

/-- Each verdict discards its damage or accepts it. -/
theorem discarded_append_accepted (vs : List Verdict) :
    (vs.filterMap Verdict.discarded? ++ vs.filterMap Verdict.accepted?).Perm
      (vs.map Verdict.damage) := by
  induction vs with
  | nil => exact .nil
  | cons v rest ih =>
      cases v with
      | accepted a => exact List.perm_middle.trans (ih.cons a.damage)
      | discarded id _ => exact ih.cons id

theorem mem_accepted? : id ∈ vs.filterMap Verdict.accepted? ↔
    ∃ a, .accepted a ∈ vs ∧ a.damage = id := by
  rw [List.mem_filterMap]
  constructor
  · rintro ⟨v, hv, hid⟩
    cases v with
    | accepted a => exact ⟨a, hv, Option.some.inj hid⟩
    | discarded _ _ => cases hid
  · rintro ⟨a, ha, hid⟩
    exact ⟨_, ha, congrArg some hid⟩

end Verdicts

namespace Tracked

variable {is : List Intake} {xs : List Shot} {live : List Task} {s : Scheduler}

theorem mem_accepted_iff (h : ∀ i ∈ is, i.verdict.damage = i.parcel.id) {id : DamageId} :
    id ∈ (is.map Intake.verdict).filterMap Verdict.accepted? ↔
      ∃ i ∈ is, i.parcel.id = id ∧ ∃ a, i.verdict = .accepted a := by
  rw [mem_accepted?]
  constructor
  · rintro ⟨a, ha, hid⟩
    obtain ⟨i, hi, hv⟩ := List.mem_map.1 ha
    exact ⟨i, hi, by rw [← h i hi, hv]; exact hid, a, hv⟩
  · rintro ⟨i, hi, hid, a, ha⟩
    refine ⟨a, List.mem_map.2 ⟨i, hi, ha⟩, ?_⟩
    rw [← hid, ← h i hi, ha]
    rfl

/-- Damage that was accepted is in progress or was completed, once. -/
theorem accepted_perm (h : Tracked is xs live s)
    (hnamed : ∀ i ∈ is, i.verdict.damage = i.parcel.id) :
    (s.active ++ (completionsOf xs).map Completion.damage).Perm
      ((is.map Intake.verdict).filterMap Verdict.accepted?) := by
  have hnodup : ((is.map Intake.verdict).filterMap Verdict.accepted?).Nodup := by
    have hdistinct := h.distinct
    rw [← map_damage_of_named hnamed] at hdistinct
    exact (List.nodup_append.1
      ((discarded_append_accepted (is.map Intake.verdict)).nodup_iff.2 hdistinct)).2.1
  refine List.perm_iff_count.2 fun id => ?_
  have hactive : s.active.count id = if 0 < live.countP (·.damage = id) then 1 else 0 := by
    rw [Scheduler.active, Std.ExtTreeMap.nodup_keys.count]
    refine if_congr ?_ rfl rfl
    rw [Std.ExtTreeMap.mem_keys, List.countP_pos_iff]
    exact (h.counts.contains_iff id).trans (by simp)
  have hcompleted : ((completionsOf xs).map Completion.damage).count id
      = (completionsOf xs).countP (·.damage = id) := by
    rw [List.count, List.countP_map]
    exact List.countP_congr fun c _ => by simp
  rw [List.count_append, hactive, hcompleted, hnodup.count]
  by_cases hid : id ∈ (is.map Intake.verdict).filterMap Verdict.accepted?
  · obtain ⟨i, hi, rfl, a, ha⟩ := (mem_accepted_iff hnamed).1 hid
    have hlength := (h.accounted i hi a ha).length_eq
    rw [(h.accounted i hi a ha).once, if_pos hid]
    split_ifs <;> omega
  · -- nothing has fired or is underway of what was not accepted
    have hnone : ∀ t ∈ xs.map Shot.task ++ live, t.damage ≠ id := by
      intro t ht heq
      obtain ⟨i, hi, hdamage, haccepted⟩ := h.accepted t ht
      exact hid ((mem_accepted_iff hnamed).2 ⟨i, hi, hdamage.trans heq, haccepted⟩)
    have hlive : live.countP (·.damage = id) = 0 :=
      List.countP_eq_zero.2 fun t ht => by simpa using hnone t (List.mem_append_right _ ht)
    rw [if_neg hid, hlive, countP_completionsOf_eq_zero]
    · rfl
    intro x hx c hc
    rw [h.completions x hx c hc]
    exact hnone _ (List.mem_append_left _ (List.mem_map_of_mem hx))

end Tracked

/-! ## Every run -/

section Reachable

open Scheduler

variable {settings : Regeneration} {seed : Tick} {s : Scheduler}

/-- In every reachable state the books agree with the records of the run. -/
theorem Scheduler.tracked_run (fresh : Scheduler.new settings seed = .ok s) {deeds : List Deed}
    (distinct : ((handedIn deeds).map Parcel.id).Nodup)
    (small : ∀ p ∈ handedIn deeds, p.damage.cells.length < 4294967296) :
    Tracked (s.intakes deeds) (s.fired deeds) (s.run deeds).liveTasks (s.run deeds) := by
  obtain ⟨hpending, -, -, hledger, -⟩ := Scheduler.new_eq fresh
  refine kept_tracked.run fresh ?_ deeds fun _ _ _ h => newParcel_of_subperm distinct small h
  exact
    { pending := hpending.symm ▸ Pending.holds_empty
      counts := hledger.symm ▸ Ledger.counts_empty
      distinct := List.nodup_nil
      accepted := fun t ht => absurd ht List.not_mem_nil
      completions := fun x hx => absurd hx List.not_mem_nil
      accounted := fun i hi => absurd hi List.not_mem_nil
      recorded := fun i hi => absurd hi List.not_mem_nil }

theorem Scheduler.placed_run (fresh : Scheduler.new settings seed = .ok s) {deeds : List Deed}
    (distinct : ((handedIn deeds).map Parcel.id).Nodup)
    (small : ∀ p ∈ handedIn deeds, p.damage.cells.length < 4294967296) :
    ((s.run deeds).funnel.waiting.map Parcel.id
      ++ (s.verdicts deeds).filterMap Verdict.discarded? ++ (s.run deeds).active
      ++ completed (s.reports deeds)).Perm ((handedIn deeds).map Parcel.id) := by
  obtain ⟨-, -, -, -, hfunnel, -⟩ := Scheduler.new_eq fresh
  have hnamed := kept_named.run fresh (fun _ hi => absurd hi List.not_mem_nil) deeds
    fun _ _ _ _ => trivial
  have haccepted := (tracked_run fresh distinct small).accepted_perm hnamed
  have hverdicts := discarded_append_accepted (s.verdicts deeds)
  have hids := map_damage_of_named hnamed
  have hparcels := (parcels_run hfunnel deeds).2.map Parcel.id
  rw [map_verdict_intakes] at haccepted hids
  rw [hids] at hverdicts
  rw [List.map_append, List.map_map] at hparcels
  rw [completed, completions_reports, List.append_assoc, List.append_assoc]
  refine List.Perm.trans (List.Perm.append_left _ ?_) (List.perm_append_comm.trans hparcels)
  exact (haccepted.append_left _).trans hverdicts

/-- **Nothing that is handed in is lost.** In every run in which no identifier is handed in twice
    and no damage has more cells than a count can name, every parcel is in exactly one place, what
    is sent is reported in order and on the next tick, the cells add up, and a shutdown accounts for
    all that has not come to an end. -/
theorem nothing_lost (fresh : Scheduler.new settings seed = .ok s) (deeds : List Deed)
    (distinct : ((handedIn deeds).map Parcel.id).Nodup)
    (small : ∀ p ∈ handedIn deeds, p.damage.cells.length < 4294967296) : s.Conserves deeds := by
  obtain ⟨-, -, -, -, hfunnel, -⟩ := Scheduler.new_eq fresh
  have hplaced := placed_run fresh distinct small
  have hactive : (s.run deeds).shutdown.1.abandonedDamage = (s.run deeds).active.length :=
    Std.ExtTreeMap.length_keys.symm
  refine
    { delivered := delivered_run hfunnel deeds
      placed := hplaced
      told := fun before _ _ _ _ world listener r h => ?_
      cells := fun hfired => ?_
      closed := ⟨rfl, Funnel.send_of_closed rfl⟩
      counted := ⟨rfl, hactive, ?_⟩ }
  · obtain ⟨_, -, -, -, -, -, -, hlistener⟩ := tick_eq_ok h
    exact hlistener
  · have hcells := kept_cells.run fresh rfl deeds
      fun _ _ _ h => newParcel_of_subperm distinct small h
    have hpending := (holds_run fresh deeds).size_eq
    rw [List.length_map] at hpending
    rw [← map_verdict_intakes, hcells, cells_reports hfired, ← hpending]
    rfl
  · have hlength := hplaced.length_eq
    simp only [List.length_append, List.length_map] at hlength
    rw [hactive, ← hlength]
    rfl

/-- A run at whose end one parcel waits, two were discarded, one is in progress and one was
    completed. -/
theorem nothing_lost_midway : ∃ s, Scheduler.new Regeneration.default 7 = .ok s ∧
    let tick : Deed := .tick (Atlas.empty []) Journal.empty
    let deeds : List Deed := [.setSpeed 10, .send (quarried 1 [(0, 0), (1, 0)]),
      .send (quarried 2 [(0, 0)]), tick, .submit (quarried 3 [(0, 2)]), .submit (quarried 4 []),
      tick, tick, tick, .send (quarried 5 [(2, 0)])]
    let t := s.run deeds
    ((handedIn deeds).map Parcel.id).Nodup ∧
      (∀ p ∈ handedIn deeds, p.damage.cells.length < 4294967296) ∧ s.Conserves deeds ∧
      ((s.verdicts deeds).map Verdict.cells).sum
        = ((s.reports deeds).map TickReport.cells).sum + t.stats.pendingCells ∧
      t.funnel.waiting.map (·.id.toNat) = [5] ∧ t.active.map DamageId.toNat = [3] ∧
      ((s.verdicts deeds).filterMap Verdict.discarded?).map DamageId.toNat = [2, 4] ∧
      (completed (s.reports deeds)).map DamageId.toNat = [1] ∧
      (s.reports deeds).map TickReport.cells = [0, 1, 0, 1] ∧ t.stats.pendingCells = 1 := by
  have hconserves := fun deeds => @nothing_lost Regeneration.default 7 _ rfl deeds
  refine ⟨_, rfl, by decide, by decide, hconserves _ (by decide) (by decide),
    (hconserves _ (by decide) (by decide)).cells ?_, by decide +kernel, by decide +kernel,
    by decide +kernel, by decide +kernel, by decide +kernel, by decide +kernel⟩
  intro before d after heq
  refine Nat.lt_of_le_of_lt (Scheduler.length_firedOn_le _ before d after) ?_
  rw [← heq]
  decide +kernel

end Reachable

end Mend
