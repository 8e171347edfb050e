import Mend.Atlas.Restore
import Mend.Journal
import Mend.Proofs.Scheduler.Completion
import Mend.Proofs.Scheduler.Likeness

set_option autoImplicit false

/-! # The schedule does not depend on the world or the listener

What stands on the ground, whether content can be put back, whether that can be signalled, and
what a listener says to a completion decides how cells come out, and nothing else. Two runs of the
same deeds on different grounds and with different listeners take in the same damage, release the
same layers and fire the same tasks on the same ticks; their records and completions differ at most
in how many cells came out in which way, and agree in how many came out at all
(`schedule_independent`). -/

namespace Mend

/-- The records differ at most in how the cells came out; as many came out. -/
def Record.SameButTally (r r' : Record) : Prop :=
  ∃ tally, r' = { r with tally } ∧ tally.total = r.tally.total

/-- The completions differ at most in how the cells came out; as many came out. -/
def Completion.SameButTally (c c' : Completion) : Prop :=
  ∃ tally, c' = { c with tally } ∧ tally.total = c.tally.total

/-- The reports differ at most in how the cells came out, those that fired on the tick and those of
    completed damage; as many fired. -/
structure TickReport.SameButTally (a a' : TickReport) : Prop where
  tick : a'.tick = a.tick
  intake : a'.intake = a.intake
  release : a'.release = a.release
  fired : a'.fired = a.fired
  completions : List.Forall₂ Completion.SameButTally a.completions a'.completions

/-- The deeds are the same but for the ground and the listener of a tick. -/
inductive Deed.SameWork : Deed → Deed → Prop where
  | submit (p : Parcel) : SameWork (.submit p) (.submit p)
  | send (p : Parcel) : SameWork (.send p) (.send p)
  | setSpeed (speed : Speed) : SameWork (.setSpeed speed) (.setSpeed speed)
  | tick {ω ω' η η' : Type} [Ground ω] [Ground ω'] [Listener η] [Listener η'] (world : ω)
      (world' : ω') (listener : η) (listener' : η') :
      SameWork (.tick world listener) (.tick world' listener')

/-- Two runs of a scheduler go the same way: they end in the same state but for how cells came out,
    give the same verdicts, fire the same tasks on the same ticks in the same order, and report the
    same but for how cells came out. -/
structure Scheduler.SameSchedule (s : Scheduler) (deeds deeds' : List Deed) : Prop where
  states : (s.run deeds).Twins (fun _ => Record.SameButTally) (s.run deeds')
  intakes : s.intakes deeds' = s.intakes deeds
  fired : (s.fired deeds').map (fun x => (x.tick, x.task))
    = (s.fired deeds).map fun x => (x.tick, x.task)
  reports : List.Forall₂ TickReport.SameButTally (s.reports deeds) (s.reports deeds')

/-! ## Outcomes do not matter -/

/-- Records that differ in how cells came out, while any task may come out in any way. -/
def Likeness.byTotal : Likeness where
  records _ := Record.SameButTally
  outcomes _ _ := True
  same _ r := ⟨r.tally, rfl, rfl⟩
  remaining := by
    rintro id r _ ⟨tally, rfl, -⟩
    rfl
  resolve := by
    rintro id r _ o o' ⟨tally, rfl, htotal⟩ -
    refine ⟨tally.record o', rfl, Capped.ext ?_⟩
    show (tally.record o').total.val = (r.tally.record o).total.val
    rw [tally.val_total_record, r.tally.val_total_record, htotal]

namespace Likeness

/-- Any two grounds are alike where outcomes do not matter. -/
theorem grounds_byTotal {ω ω' : Type} [Ground ω] [Ground ω'] (world : ω) (world' : ω') :
    byTotal.Grounds world world' := by
  intro ts
  induction ts generalizing world world' with
  | nil => exact .nil
  | cons t rest ih => exact .cons trivial (ih _ _)

theorem deeds_byTotal {d d' : Deed} (h : d.SameWork d') : byTotal.Deeds d d' := by
  cases h with
  | submit p => exact .submit p
  | send p => exact .send p
  | setSpeed speed => exact .setSpeed speed
  | tick world world' listener listener' =>
      exact .tick (grounds_byTotal world world') listener listener'

theorem sameButTally_of_completed {id : DamageId} {c c' : Completion}
    (h : byTotal.Completed id c c') : c.SameButTally c' := by
  obtain ⟨s, r, _, ⟨tally, rfl, htotal⟩, rfl, rfl⟩ := h
  exact ⟨tally, rfl, htotal⟩

theorem sameButTally_of_reports {a a' : TickReport} (h : byTotal.Reports a a') :
    a.SameButTally a' := by
  obtain ⟨htick, hintake, hrelease, xs, xs', hshots, hc, hc', htally, htally'⟩ := h
  refine ⟨htick, hintake, hrelease, Capped.ext ?_, ?_⟩
  · rw [TickReport.fired, TickReport.fired, htally, htally', Tally.val_total_foldl_record,
      Tally.val_total_foldl_record, List.length_map, List.length_map, hshots.length_eq]
  · rw [hc, hc']
    exact (completionsOf_shots hshots).imp fun c c' ⟨_, h⟩ => sameButTally_of_completed h

end Likeness

/-! ## Every run -/

/-- **The schedule is independent of the world and the listener.** Runs of the same deeds from the
    same state go the same way, whatever stands on the grounds, whatever fails there and whatever
    the listeners answer. -/
theorem schedule_independent (s : Scheduler) {deeds deeds' : List Deed}
    (same : List.Forall₂ Deed.SameWork deeds deeds') : s.SameSchedule deeds deeds' := by
  obtain ⟨hstates, hintakes, hshots, hreports⟩ := Likeness.run (Likeness.byTotal.twins_self s)
    (same.imp fun _ _ => Likeness.deeds_byTotal)
  exact ⟨hstates, hintakes, Likeness.map_tick_task_of_shots hshots,
    hreports.imp fun _ _ => Likeness.sameButTally_of_reports⟩

/-- Two parcels over a quarry in which one cell is in the way, and over ground where there is no
    quarry and every restoration fails, with a listener that refuses: the same tasks fire on the
    same ticks, and come out differently. -/
theorem schedule_independent_of_failures : ∃ s, Scheduler.new Regeneration.default 7 = .ok s ∧
    let ground := (((Atlas.empty []).withWorld "quarry").setNatural "quarry" (Pos.clamp 0 1 0)
      (Content.plain "stone")).2
    let deeds : Deed → List Deed := fun tick => [.submit (quarried 1 [(0, 0), (0, 1)]),
      .setSpeed 10, .send (quarried 2 [(1, 0)])] ++ List.replicate 20 tick
    let quarry := deeds (.tick ground Journal.empty)
    let nowhere := deeds (.tick (Atlas.empty []) Journal.refusing)
    List.Forall₂ Deed.SameWork quarry nowhere ∧ s.SameSchedule quarry nowhere ∧
      (s.fired quarry).map (fun x => (x.tick.val, x.outcome))
        = [(2, .restored), (4, .restored), (20, .skipped)] ∧
      (s.fired nowhere).map (fun x => (x.tick.val, x.outcome))
        = [(2, .failed), (4, .failed), (20, .failed)] := by
  have hsame : ∀ n {ω ω' η η' : Type} [Ground ω] [Ground ω'] [Listener η] [Listener η'] (world : ω)
      (world' : ω') (listener : η) (listener' : η'), List.Forall₂ Deed.SameWork
        (List.replicate n (.tick world listener)) (List.replicate n (.tick world' listener')) := by
    intro n _ _ _ _ _ _ _ _ world world' listener listener'
    induction n with
    | zero => exact .nil
    | succ n ih => exact .cons (.tick world world' listener listener') ih
  refine ⟨_, rfl, ?_, schedule_independent _ ?_, by decide +kernel, by decide +kernel⟩ <;>
    exact .cons (.submit _) (.cons (.setSpeed _) (.cons (.send _) (hsame 20 _ _ _ _)))

end Mend
