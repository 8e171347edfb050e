import Mathlib.Data.List.Induction
import Mend.Proofs.Scheduler.Phases

set_option autoImplicit false

/-! # Runs of the scheduler and what they leave in the records

A run is a list of deeds done to a fresh scheduler: damage submitted, damage sent through the
funnel, a change of speed, or a tick with any ground and any listener. `Scheduler.run` gives the
state it ends in, `Scheduler.intakes` the damage it took in with the verdicts,
`Scheduler.fired` its firings and `Scheduler.reports` the reports of its ticks, all in the order
of events. The firings are those that the ticks perform, on the world, the listener and the report
(`Scheduler.performsFirings`).

`Kept` singles out the properties of a state and these two records that taking in one parcel,
firing one task and reordering the tasks underway keep, and that look at nothing but the books.
Such a property holds after every run (`Kept.run`); it is stated for single steps and carried
through the loops of intake, release and firing here, once for all of them. -/

namespace Mend

/-! ## Deeds -/

/-- Something done to a scheduler. A tick comes with the ground and the listener it is given. -/
inductive Deed where
  | submit (parcel : Parcel)
  | send (parcel : Parcel)
  | setSpeed (speed : Speed)
  | tick {ω η : Type} [Ground ω] [Listener η] (world : ω) (listener : η)

/-- The damage that a deed hands in. -/
def Deed.parcel? : Deed → Option Parcel
  | .submit p | .send p => some p
  | _ => none

/-- The damage that some deeds hand in, in order. -/
def handedIn (deeds : List Deed) : List Parcel := deeds.filterMap Deed.parcel?

theorem handedIn_append (deeds more : List Deed) :
    handedIn (deeds ++ more) = handedIn deeds ++ handedIn more :=
  List.filterMap_append

/-- Stone lost at the given places of a quarry, handed in under a number. Runs on fixed inputs are
    made of such parcels. -/
def quarried (id : Nat) (places : List (Int × Int)) : Parcel where
  id := DamageId.ofNat id
  damage :=
    { world := "quarry", origin := Pos.clamp 0 0 0, intensity := 1
      cells := places.map fun (x, y) => ⟨Pos.clamp x y 0, Content.plain "stone", .natural⟩ }

/-- Damage that was taken in or discarded: on which tick, and with which verdict. -/
structure Intake where
  parcel : Parcel
  tick : Tick
  verdict : Verdict
deriving DecidableEq

namespace Scheduler

/-- The scheduler after a deed. A tick that fails changes nothing, and neither does sending
    through a closed funnel. -/
def after (s : Scheduler) : Deed → Scheduler
  | .submit p => (s.accept p.id p.damage).2
  | .send p => match s.send p.id p.damage with
    | .ok s' => s'
    | .error _ => s
  | .setSpeed speed => s.withSpeed speed
  | @Deed.tick _ _ _ _ world listener => match s.tick world listener with
    | .ok r => r.scheduler
    | .error _ => s

/-- The scheduler after a list of deeds. -/
def run (s : Scheduler) (deeds : List Deed) : Scheduler := deeds.foldl after s

/-- The damage taken in or discarded by a deed. On a tick the verdicts in the report are those on
    the damage that was waiting. -/
def intakesOn (s : Scheduler) : Deed → List Intake
  | .submit p => [⟨p, s.clock.now, (s.accept p.id p.damage).1⟩]
  | @Deed.tick _ _ _ _ world listener => match s.tick world listener with
    | .ok r => List.zipWith (fun p v => ⟨p, r.report.tick, v⟩) s.funnel.waiting r.report.intake
    | .error _ => []
  | .send _ | .setSpeed _ => []

/-- The firings of a deed. -/
def firedOn (s : Scheduler) : Deed → List Shot
  | @Deed.tick _ _ _ _ world _ => match s.clock.advance with
    | .ok clock => (s.prepared clock).dueShots world
    | .error _ => []
  | .submit _ | .send _ | .setSpeed _ => []

/-- The report of a deed: a tick that runs has one. -/
def reportsOn (s : Scheduler) : Deed → List TickReport
  | @Deed.tick _ _ _ _ world listener => match s.tick world listener with
    | .ok r => [r.report]
    | .error _ => []
  | .submit _ | .send _ | .setSpeed _ => []

/-- What the deeds of a run leave behind one after the other, given what a single one leaves. -/
def gather {α : Type} (f : Scheduler → Deed → List α) : Scheduler → List Deed → List α
  | _, [] => []
  | s, d :: rest => f s d ++ gather f (s.after d) rest

/-- The damage taken in or discarded in a run. -/
def intakes (s : Scheduler) (deeds : List Deed) : List Intake := gather intakesOn s deeds

/-- The firings of a run. -/
def fired (s : Scheduler) (deeds : List Deed) : List Shot := gather firedOn s deeds

/-- The reports of the ticks of a run. -/
def reports (s : Scheduler) (deeds : List Deed) : List TickReport := gather reportsOn s deeds

theorem run_append (s : Scheduler) (deeds more : List Deed) :
    s.run (deeds ++ more) = (s.run deeds).run more :=
  List.foldl_append

theorem run_concat (s : Scheduler) (deeds : List Deed) (d : Deed) :
    s.run (deeds ++ [d]) = (s.run deeds).after d :=
  s.run_append deeds [d]

theorem gather_append {α : Type} (f : Scheduler → Deed → List α) (s : Scheduler)
    (deeds more : List Deed) :
    gather f s (deeds ++ more) = gather f s deeds ++ gather f (s.run deeds) more := by
  induction deeds generalizing s with
  | nil => rfl
  | cons d rest ih => rw [List.cons_append, gather, ih, gather, List.append_assoc]; rfl

theorem gather_concat {α : Type} (f : Scheduler → Deed → List α) (s : Scheduler)
    (deeds : List Deed) (d : Deed) :
    gather f s (deeds ++ [d]) = gather f s deeds ++ f (s.run deeds) d := by
  rw [gather_append, gather, gather, List.append_nil]

/-- A fresh scheduler holds nothing, and its funnel is open. -/
theorem new_eq {settings : Regeneration} {seed : Tick} {s : Scheduler}
    (h : Scheduler.new settings seed = .ok s) :
    s.pending = Pending.empty ∧ s.layers = LayerQueue.empty ∧ s.agenda = Agenda.empty ∧
      s.ledger = Ledger.empty ∧ s.funnel = Funnel.empty ∧ s.cap = settings.cap := by
  unfold Scheduler.new at h
  split at h
  · cases h
  · cases h
    exact ⟨rfl, rfl, rfl, rfl, rfl, rfl⟩

/-! ## What becomes of the damage handed in -/

/-- The intake of several parcels, one after the other. -/
def intakeAll (s : Scheduler) : List Parcel → List Intake
  | [] => []
  | p :: rest => ⟨p, s.clock.now, (s.accept p.id p.damage).1⟩ ::
      (s.accept p.id p.damage).2.intakeAll rest

@[simp] theorem map_parcel_intakeAll (s : Scheduler) (ps : List Parcel) :
    (s.intakeAll ps).map Intake.parcel = ps := by
  induction ps generalizing s with
  | nil => rfl
  | cons p rest ih => rw [intakeAll, List.map_cons, ih]

@[simp] theorem accept_clock (s : Scheduler) (id : DamageId) (d : Damage) :
    (s.accept id d).2.clock = s.clock := by
  obtain ⟨_, _, _, _, h⟩ := s.accept_eq id d
  rw [h]

/-- The verdicts on several parcels are those of their intake. -/
theorem zipWith_acceptAll (s : Scheduler) (ps : List Parcel) :
    List.zipWith (fun p v => Intake.mk p s.clock.now v) ps (s.acceptAll ps).1
      = s.intakeAll ps := by
  induction ps generalizing s with
  | nil => rfl
  | cons p rest ih =>
      have h := ih (s.accept p.id p.damage).2
      rw [s.accept_clock p.id p.damage] at h
      exact congrArg (Intake.mk p s.clock.now (s.accept p.id p.damage).1 :: ·) h

/-- The scheduler on a tick when intake begins: the clock has moved and the funnel is empty. -/
def atIntake (s : Scheduler) (clock : Clock) : Scheduler :=
  { s with clock, funnel := s.funnel.drained }

/-- A tick that moves the clock takes in what was waiting. -/
theorem intakesOn_tick {ω η : Type} [Ground ω] [Listener η] {s : Scheduler} {clock : Clock}
    (h : s.clock.advance = .ok clock) (world : ω) (listener : η) :
    s.intakesOn (.tick world listener) = (s.atIntake clock).intakeAll s.funnel.waiting := by
  rcases s.tick_cases world listener with ⟨e, he, -⟩ | ⟨clock', hc, htick⟩
  · rw [h] at he
    cases he
  · rw [h] at hc
    cases hc
    rw [intakesOn, htick]
    exact (s.atIntake clock).zipWith_acceptAll s.funnel.waiting

theorem firedOn_tick {ω η : Type} [Ground ω] [Listener η] {s : Scheduler} {clock : Clock}
    (h : s.clock.advance = .ok clock) (world : ω) (listener : η) :
    s.firedOn (.tick world listener) = (s.prepared clock).dueShots world := by
  rw [firedOn, h]

theorem after_tick {ω η : Type} [Ground ω] [Listener η] {s : Scheduler} {clock : Clock}
    (h : s.clock.advance = .ok clock) (world : ω) (listener : η) :
    s.after (.tick world listener)
      = (s.prepared clock).poised.settleAll ((s.prepared clock).dueShots world) := by
  rcases s.tick_cases world listener with ⟨e, he, -⟩ | ⟨clock', hc, htick⟩
  · rw [h] at he
    cases he
  · rw [h] at hc
    cases hc
    rw [after, htick]

/-- Whether or not the funnel takes what is sent, nothing but the funnel changes. -/
theorem after_send (s : Scheduler) (p : Parcel) :
    ∃ funnel, s.after (.send p) = { s with funnel } := by
  rw [after]
  split
  · next s' hsend =>
    obtain ⟨funnel, -, heq⟩ := send_eq_ok hsend
    exact ⟨funnel, heq⟩
  · exact ⟨s.funnel, rfl⟩

/-- A tick whose clock cannot move does nothing. -/
theorem tick_error {ω η : Type} [Ground ω] [Listener η] {s : Scheduler} {e : ClockError}
    (h : s.clock.advance = .error e) (world : ω) (listener : η) :
    s.after (.tick world listener) = s ∧ s.intakesOn (.tick world listener) = [] ∧
      s.firedOn (.tick world listener) = [] := by
  rcases s.tick_cases world listener with ⟨e', -, htick⟩ | ⟨clock, hc, -⟩
  · exact ⟨by rw [after, htick], by rw [intakesOn, htick], by rw [firedOn, h]⟩
  · rw [h] at hc
    cases hc

theorem run_submit (s : Scheduler) (ps : List Parcel) :
    s.run (ps.map .submit) = (s.acceptAll ps).2 := by
  induction ps generalizing s with
  | nil => rfl
  | cons p rest ih => exact ih (s.accept p.id p.damage).2

theorem intakes_submit (s : Scheduler) (ps : List Parcel) :
    s.intakes (ps.map .submit) = s.intakeAll ps := by
  induction ps generalizing s with
  | nil => rfl
  | cons p rest ih => exact congrArg (_ :: ·) (ih (s.accept p.id p.damage).2)

theorem map_verdict_intakeAll (s : Scheduler) (ps : List Parcel) :
    (s.intakeAll ps).map Intake.verdict = (s.acceptAll ps).1 := by
  induction ps generalizing s with
  | nil => rfl
  | cons p rest ih => exact congrArg (_ :: ·) (ih (s.accept p.id p.damage).2)

theorem run_send {s : Scheduler} (hopen : s.funnel.closed = false) (ps : List Parcel) :
    s.run (ps.map .send)
      = { s with funnel := { s.funnel with waiting := s.funnel.waiting ++ ps } } := by
  induction ps generalizing s with
  | nil => simp [run]
  | cons p rest ih =>
      have hsend : s.after (.send p)
          = { s with funnel := { s.funnel with waiting := s.funnel.waiting ++ [p] } } := by
        simp [after, send, Funnel.send, hopen]
      have hrest := @ih (s.after (.send p)) (by rw [hsend]; exact hopen)
      rw [hsend] at hrest
      simpa [run, hsend] using hrest

/-- What is taken in gets the verdict on it. -/
theorem mem_zip_of_mem_intakeAll {s : Scheduler} {ps : List Parcel} {i : Intake}
    (hi : i ∈ s.intakeAll ps) : (i.parcel, i.verdict) ∈ ps.zip (s.acceptAll ps).1 := by
  rw [← zipWith_acceptAll, ← List.map_uncurry_zip_eq_zipWith] at hi
  obtain ⟨⟨p, v⟩, hmem, rfl⟩ := List.mem_map.1 hi
  exact hmem

/-- A deed hands damage to the funnel or takes it in, and what it takes in it takes from the
    funnel or was handed. -/
theorem parcels_after {s : Scheduler} (hopen : s.funnel.closed = false) (d : Deed) :
    (s.after d).funnel.closed = false ∧
      ((s.intakesOn d).map Intake.parcel ++ (s.after d).funnel.waiting).Perm
        (s.funnel.waiting ++ d.parcel?.toList) := by
  cases d with
  | submit p =>
      obtain ⟨_, _, _, _, h⟩ := s.accept_eq p.id p.damage
      rw [after, h]
      exact ⟨hopen, List.perm_append_comm⟩
  | send p =>
      have hsend : s.send p.id p.damage
          = .ok { s with funnel := { s.funnel with waiting := s.funnel.waiting ++ [p] } } := by
        simp [send, Funnel.send, hopen]
      rw [after, hsend]
      exact ⟨hopen, List.Perm.refl _⟩
  | setSpeed speed => exact ⟨hopen, by simp [intakesOn, after, withSpeed, Deed.parcel?]⟩
  | tick world listener =>
      cases hclock : s.clock.advance with
      | error e =>
          obtain ⟨hafter, hintake, -⟩ := tick_error hclock world listener
          rw [hafter, hintake]
          exact ⟨hopen, by simp [Deed.parcel?]⟩
      | ok clock =>
          obtain ⟨_, _, _, _, _, _, heq⟩ := s.prepared_eq clock
          rw [after_tick hclock, intakesOn_tick hclock, settleAll_eq, map_parcel_intakeAll]
          show (s.prepared clock).funnel.closed = false ∧ List.Perm (_ ++
            (s.prepared clock).funnel.waiting) _
          rw [heq]
          exact ⟨hopen, List.Perm.refl _⟩

/-- The damage handed in by a run is what it took in and what still waits; the funnel stays
    open. -/
theorem parcels_run {s : Scheduler} (hfunnel : s.funnel = Funnel.empty) (deeds : List Deed) :
    (s.run deeds).funnel.closed = false ∧
      ((s.intakes deeds).map Intake.parcel ++ (s.run deeds).funnel.waiting).Perm
        (handedIn deeds) := by
  induction deeds using List.reverseRecOn with
  | nil => exact ⟨by rw [run, List.foldl_nil, hfunnel]; rfl, by
      rw [run, List.foldl_nil, hfunnel]; exact List.Perm.refl _⟩
  | append_singleton deeds d ih =>
      obtain ⟨hopen, hperm⟩ := ih
      obtain ⟨hopen', hperm'⟩ := parcels_after hopen d
      have hhanded : handedIn (deeds ++ [d]) = handedIn deeds ++ d.parcel?.toList := by
        rw [handedIn_append]
        cases hd : d.parcel? <;> simp [handedIn, hd]
      rw [run_concat, intakes, gather_concat, List.map_append, List.append_assoc, hhanded]
      refine ⟨hopen', (hperm'.append_left _).trans ?_⟩
      rw [← List.append_assoc]
      exact hperm.append_right _

/-- What a run took in was handed in. -/
theorem handedIn_of_mem_intakes {settings : Regeneration} {seed : Tick} {s : Scheduler}
    (fresh : Scheduler.new settings seed = .ok s) {deeds : List Deed} {i : Intake}
    (hi : i ∈ s.intakes deeds) : i.parcel ∈ handedIn deeds := by
  obtain ⟨-, -, -, -, hfunnel, -⟩ := Scheduler.new_eq fresh
  exact (parcels_run hfunnel deeds).2.subset (List.mem_append_left _ (List.mem_map_of_mem hi))

/-! ## What a tick does with its firings -/

/-- Each task fires in the world that the tasks before it have left. -/
theorem outcome_of_prefix_shots {ω : Type} [Ground ω] {s : Scheduler} {world : ω} {ts : List Task}
    {before : List Shot} {x : Shot} (h : before ++ [x] <+: s.shots world ts) :
    x.outcome
      = (fire ((before.map Shot.task).foldl (fun w t => (fire w t).2) world) x.task).1 := by
  induction ts generalizing s world before with
  | nil => simp [shots] at h
  | cons t rest ih =>
      cases before with
      | nil =>
          obtain ⟨rfl, -⟩ := List.cons_prefix_cons.1 h
          rfl
      | cons y before =>
          obtain ⟨rfl, hrest⟩ := List.cons_prefix_cons.1 h
          exact @ih (s.settle t (fire world t).1).2 (fire world t).2 before hrest

/-- A tick on the given world and listener that leaves `r` performs the firings `xs`: they come out
    as they do in the world one after the other, and are all that the tick does to the world, tells
    the listener, and counts and lists in its report. -/
structure Ticked.Performs {ω η : Type} [Ground ω] [Listener η] (r : Ticked ω η) (xs : List Shot)
    (world : ω) (listener : η) : Prop where
  ticks : ∀ x ∈ xs, x.tick = r.report.tick
  outcomes : ∀ before x, before ++ [x] <+: xs → x.outcome
    = (fire ((before.map Shot.task).foldl (fun w t => (fire w t).2) world) x.task).1
  world : r.world = (xs.map Shot.task).foldl (fun w t => (fire w t).2) world
  tally : r.report.tally = (xs.map Shot.outcome).foldl Tally.record Tally.zero
  completions : r.report.completions = completionsOf xs
  listener : r.listener = Listener.hear listener (completionsOf xs)

theorem performs_tick {ω η : Type} [Ground ω] [Listener η] {s : Scheduler} {world : ω}
    {listener : η} {r : Ticked ω η} (h : s.tick world listener = .ok r) :
    r.Performs (s.firedOn (.tick world listener)) world listener := by
  obtain ⟨clock, hclock, htick, htally, hcompletions, -, hworld, hlistener⟩ := tick_eq_ok h
  rw [firedOn_tick hclock]
  refine ⟨?_, ?_, ?_, htally, hcompletions, hcompletions ▸ hlistener⟩
  · intro x hx
    rw [tick_of_mem_shots hx, htick]
    exact congrArg Clock.now (s.prepared_clock clock)
  · intro before x hbefore
    exact outcome_of_prefix_shots hbefore
  · rw [hworld, dueShots, map_task_shots]

/-- The firings of the runs from a state are performed by their ticks, and nothing else that is done
    fires anything. -/
structure PerformsFirings (s : Scheduler) : Prop where
  split : ∀ before d after, s.fired (before ++ d :: after)
    = s.fired before ++ (s.run before).firedOn d ++ (s.run (before ++ [d])).fired after
  ticks : ∀ before {ω η : Type} [Ground ω] [Listener η] (world : ω) (listener : η)
    (r : Ticked ω η), (s.run before).tick world listener = .ok r →
    r.Performs ((s.run before).firedOn (.tick world listener)) world listener
  others : ∀ before d, (s.run before).reportsOn d = [] → (s.run before).firedOn d = []

theorem performsFirings (s : Scheduler) : s.PerformsFirings where
  split before d after := by
    rw [fired, gather_append, gather, run_concat, List.append_assoc]
    rfl
  ticks before _ _ _ _ world listener r h := performs_tick h
  others before d h := by
    cases d with
    | submit | send | setSpeed => rfl
    | tick world listener =>
        rcases (s.run before).tick_cases world listener with ⟨e, hclock, -⟩ | ⟨_, -, hok⟩
        · exact (tick_error hclock world listener).2.2
        · rw [reportsOn, hok] at h
          cases h

/-! ## Properties of the books -/

theorem accept_liveTasks (s : Scheduler) (id : DamageId) (d : Damage) :
    ((s.accept id d).2.liveTasks).Perm (s.liveTasks ++ s.newTasks id d) := by
  rcases s.accept_cases id d with ⟨hnil, _, h⟩ | ⟨-, _, _, _, h, -, -, hperm, -⟩
  · rw [h, hnil, List.append_nil]
  · rw [h]
    refine (hperm.append_right s.agenda.items).trans ?_
    rw [liveTasks, List.append_assoc, List.append_assoc]
    exact List.perm_append_comm.append_left s.layers.tasks

/-- When firing begins, what is due stands apart from the other tasks underway. -/
theorem liveTasks_split (s : Scheduler) : s.liveTasks.Perm (s.dueTasks ++ s.poised.liveTasks) := by
  rw [liveTasks, ← s.agenda.due_append_later s.clock.now, ← List.append_assoc]
  refine (List.perm_append_comm.append_right _).trans ?_
  rw [List.append_assoc]
  exact List.Perm.refl _

end Scheduler

/-- `J is xs live s` is a property of the books: of the damage taken in and the firings so far,
    the tasks underway, and the pending set and the ledger of the scheduler. It is kept when a
    parcel is taken in of which `ok` holds, when a task fires, and when the tasks underway are
    reordered. -/
structure Kept (ok : List Intake → Parcel → Prop)
    (J : List Intake → List Shot → List Task → Scheduler → Prop) : Prop where
  accept : ∀ {is xs live s}, J is xs live s → ∀ p, ok is p →
    J (is ++ [⟨p, s.clock.now, (s.accept p.id p.damage).1⟩]) xs
      (live ++ s.newTasks p.id p.damage) (s.accept p.id p.damage).2
  settle : ∀ {is xs t live s}, J is xs (t :: live) s → ∀ o,
    J is (xs ++ [⟨s.clock.now, t, o, (s.settle t o).1⟩]) live (s.settle t o).2
  perm : ∀ {is xs live live' s}, J is xs live s → live.Perm live' → J is xs live' s
  frame : ∀ {is xs live s s'}, J is xs live s → s'.pending = s.pending → s'.ledger = s.ledger →
    s'.radiusPerIntensity = s.radiusPerIntensity → J is xs live s'

namespace Kept

open Scheduler

variable {ok : List Intake → Parcel → Prop}
  {J : List Intake → List Shot → List Task → Scheduler → Prop} {is : List Intake}
  {xs : List Shot} {s : Scheduler}

/-- Taking in several parcels keeps a property of the books. -/
theorem acceptAll (hJ : Kept ok J) (ps : List Parcel) (h : J is xs s.liveTasks s)
    (hok : ∀ is' p rest, is'.map Intake.parcel ++ p :: rest = is.map Intake.parcel ++ ps →
      ok is' p) :
    J (is ++ s.intakeAll ps) xs (s.acceptAll ps).2.liveTasks (s.acceptAll ps).2 := by
  induction ps generalizing is s with
  | nil => rwa [intakeAll, List.append_nil]
  | cons p rest ih =>
      have hone := hJ.perm (hJ.accept h p (hok is p rest rfl)) (s.accept_liveTasks _ _).symm
      have hrest := ih hone fun is' q rest' heq => hok is' q rest' (by
        rw [heq, List.map_append, List.append_assoc]; rfl)
      rwa [List.append_assoc] at hrest

/-- Firing tasks keeps a property of the books. -/
theorem shots {ω : Type} [Ground ω] (hJ : Kept ok J) (world : ω) (ts live : List Task)
    (h : J is xs (ts ++ live) s) :
    J is (xs ++ s.shots world ts) live (s.settleAll (s.shots world ts)) := by
  induction ts generalizing xs s world with
  | nil => rwa [Scheduler.shots, List.append_nil]
  | cons t rest ih =>
      have hrest := ih (fire world t).2 (hJ.settle h (fire world t).1)
      rwa [List.append_assoc] at hrest

/-- The steps of a tick before firing keep a property of the books. -/
theorem prepared (hJ : Kept ok J) (h : J is xs s.liveTasks s) (clock : Clock)
    (hok : ∀ is' p rest, is'.map Intake.parcel ++ p :: rest
      = is.map Intake.parcel ++ s.funnel.waiting → ok is' p) :
    J (is ++ (s.atIntake clock).intakeAll s.funnel.waiting) xs
      ((s.prepared clock).dueTasks ++ (s.prepared clock).poised.liveTasks)
      (s.prepared clock).poised := by
  have hintake := hJ.acceptAll (s := s.atIntake clock) s.funnel.waiting
    (hJ.frame h rfl rfl rfl) hok
  obtain ⟨drain, layers, agenda, random, hrel, hperm, -⟩ :=
    ((s.atIntake clock).acceptAll s.funnel.waiting).2.release_eq
  have hprepared : J (is ++ (s.atIntake clock).intakeAll s.funnel.waiting) xs
      (s.prepared clock).liveTasks (s.prepared clock) := by
    show J _ xs (((s.atIntake clock).acceptAll s.funnel.waiting).2.release.2).liveTasks
      ((s.atIntake clock).acceptAll s.funnel.waiting).2.release.2
    rw [hrel]
    exact hJ.frame (hJ.perm hintake hperm.symm) rfl rfl rfl
  exact hJ.frame (hJ.perm hprepared (s.prepared clock).liveTasks_split) rfl rfl rfl

/-- A deed keeps a property of the books. -/
theorem after (hJ : Kept ok J) (h : J is xs s.liveTasks s) (d : Deed)
    (hok : ∀ is' p rest, is'.map Intake.parcel ++ p :: rest
      = is.map Intake.parcel ++ (s.intakesOn d).map Intake.parcel → ok is' p) :
    J (is ++ s.intakesOn d) (xs ++ s.firedOn d) (s.after d).liveTasks (s.after d) := by
  cases d with
  | submit p =>
      rw [firedOn, List.append_nil]
      exact hJ.perm (hJ.accept h p (hok is p [] rfl)) (s.accept_liveTasks _ _).symm
  | send p =>
      obtain ⟨funnel, hafter⟩ := s.after_send p
      rw [intakesOn, firedOn, List.append_nil, List.append_nil, hafter]
      exact hJ.frame h rfl rfl rfl
  | setSpeed speed =>
      rw [intakesOn, firedOn, List.append_nil, List.append_nil]
      exact hJ.frame h rfl rfl rfl
  | tick world listener =>
      cases hclock : s.clock.advance with
      | error e =>
          obtain ⟨hafter, hintake, hfired⟩ := tick_error hclock world listener
          rwa [hafter, hintake, hfired, List.append_nil, List.append_nil]
      | ok clock =>
          rw [intakesOn_tick hclock, map_parcel_intakeAll] at hok
          rw [intakesOn_tick hclock, after_tick hclock, firedOn_tick hclock]
          have hfired := hJ.shots world _ _ (hJ.prepared h clock hok)
          rw [settleAll_eq] at hfired ⊢
          exact hfired

/-- A property of the books that a fresh scheduler has holds after every run in which each parcel
    is one that may be taken in after those taken in before it. -/
theorem run (hJ : Kept ok J) {settings : Regeneration} {seed : Tick}
    (fresh : Scheduler.new settings seed = .ok s) (h : J [] [] [] s) (deeds : List Deed)
    (hok : ∀ is p rest, (is.map Intake.parcel ++ p :: rest).Subperm (handedIn deeds) → ok is p) :
    J (s.intakes deeds) (s.fired deeds) (s.run deeds).liveTasks (s.run deeds) := by
  obtain ⟨-, hlayers, hagenda, -, hfunnel, -⟩ := Scheduler.new_eq fresh
  induction deeds using List.reverseRecOn with
  | nil =>
      have hlive : s.liveTasks = [] := by
        rw [liveTasks, hlayers, hagenda]
        rfl
      exact hlive.symm ▸ h
  | append_singleton deeds d ih =>
      have hprefix : (handedIn deeds).Subperm (handedIn (deeds ++ [d])) := by
        rw [handedIn_append]
        exact (List.sublist_append_left _ _).subperm
      have hbefore := ih fun is p rest hsub => hok is p rest (hsub.trans hprefix)
      rw [Scheduler.run_concat, intakes, gather_concat, fired, gather_concat]
      refine hJ.after hbefore d fun is p rest heq => hok is p rest ?_
      -- what the deed takes in, after what was taken in before it, was all handed in
      have hperm := (parcels_run hfunnel (deeds ++ [d])).2
      rw [heq]
      rw [intakes, gather_concat, List.map_append] at hperm
      exact (List.sublist_append_left _ _).subperm.trans hperm.subperm

end Kept

end Mend
