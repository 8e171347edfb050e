import Mathlib.Data.List.Perm.Basic
import Mend.Proofs.Ledger.Counting
import Mend.Proofs.Queue.Interleaving
import Mend.Proofs.Scheduler.Completion

set_option autoImplicit false

/-! # The firings of one damage among those of others

How the firings of some damage turn out, which completion they bring about and what they leave of
its record depends on that record, and on how its own tasks come out one after the other. It does
not depend on the firings of other damage in between (`Scheduler.shotsOf_played`). So firing the
tasks of each damage in the same order, however those of different damage are interleaved, leaves
the same ledger (`Scheduler.records_settleAll`) and the same pending cells
(`Scheduler.contains_settleAll`). -/

namespace Mend

namespace Scheduler

variable {s s' : Scheduler} {id : DamageId} {t : Task}

/-! ## One damage at a time -/

/-- All that the firings of some damage depend on. -/
def account (s : Scheduler) (id : DamageId) : Clock × Count × Option Record :=
  (s.clock, s.radiusPerIntensity, s.ledger.records[id]?)

/-- A firing turns out the same wherever the account of its damage is the same, and leaves the same
    account. -/
theorem settle_congr (h : s'.account t.damage = s.account t.damage) (o : Outcome) :
    (s'.settle t o).1 = (s.settle t o).1 ∧
      (s'.settle t o).2.account t.damage = (s.settle t o).2.account t.damage := by
  simp only [account, Prod.mk.injEq] at h
  obtain ⟨hclock, hradius, hrecord⟩ := h
  obtain ⟨hclosed, hleft⟩ := Ledger.resolve_congr hrecord o
  constructor
  · show (s'.ledger.resolve t.damage o).1.map s'.completion
      = (s.ledger.resolve t.damage o).1.map s.completion
    have hcompletion : s'.completion = s.completion := by
      funext r
      simp only [completion, hclock, hradius]
    rw [hclosed, hcompletion]
  · show (s'.clock, s'.radiusPerIntensity, (s'.ledger.resolve t.damage o).2.records[t.damage]?)
      = (s.clock, s.radiusPerIntensity, (s.ledger.resolve t.damage o).2.records[t.damage]?)
    rw [hclock, hradius, hleft]

theorem account_settle_other (h : t.damage ≠ id) (o : Outcome) :
    (s.settle t o).2.account id = s.account id := by
  show (s.clock, s.radiusPerIntensity, (s.ledger.resolve t.damage o).2.records[id]?) = _
  rw [Ledger.getElem?_resolve_other h]
  rfl

/-- The firings of the given tasks, if they come out as given. -/
def played (s : Scheduler) : List (Task × Outcome) → List Shot
  | [] => []
  | f :: rest => ⟨s.clock.now, f.1, f.2, (s.settle f.1 f.2).1⟩ :: (s.settle f.1 f.2).2.played rest

/-- The ground decides how tasks come out, and nothing else about their firings. -/
theorem shots_eq_played {ω : Type} [Ground ω] (s : Scheduler) (world : ω) (ts : List Task) :
    s.shots world ts = s.played ((s.shots world ts).map fun x => (x.task, x.outcome)) := by
  induction ts generalizing s world with
  | nil => rfl
  | cons t rest ih =>
      have hrest := ih (s.settle t (fire world t).1).2 (fire world t).2
      exact congrArg (Shot.mk s.clock.now t (fire world t).1 (s.settle t (fire world t).1).1 :: ·)
        hrest

/-- The firings of some damage turn out, and leave its account, as if there were no others, and as
    in any scheduler with the same account. -/
theorem shotsOf_played (h : s'.account id = s.account id) (fs : List (Task × Outcome)) :
    shotsOf id (s'.played fs) = s.played (fs.filter (·.1.damage = id)) ∧
      (s'.settleAll (s'.played fs)).account id
        = (s.settleAll (s.played (fs.filter (·.1.damage = id)))).account id := by
  induction fs generalizing s s' with
  | nil => exact ⟨rfl, h⟩
  | cons f rest ih =>
      by_cases hown : f.1.damage = id
      · subst hown
        obtain ⟨hcompletion, haccount⟩ := settle_congr h f.2
        obtain ⟨hshots, hleft⟩ := ih haccount
        have hclock : s'.clock = s.clock := congrArg Prod.fst h
        rw [List.filter_cons_of_pos (by simp)]
        refine ⟨?_, hleft⟩
        rw [played, shotsOf, List.filter_cons_of_pos (by simp), played, ← hshots, hcompletion,
          hclock]
        rfl
      · obtain ⟨hshots, hleft⟩ := ih ((account_settle_other hown f.2).trans h)
        rw [List.filter_cons_of_neg (by simpa using hown)]
        refine ⟨?_, hleft⟩
        rw [played, shotsOf, List.filter_cons_of_neg (by simpa using hown)]
        exact hshots

/-! ## All damage together -/

variable {fs fs' : List (Task × Outcome)}

/-- Firings of the same tasks of each damage in the same order turn out the same for each damage,
    and leave the same ledger. -/
theorem played_interleaved (hclock : s'.clock = s.clock)
    (hradius : s'.radiusPerIntensity = s.radiusPerIntensity) (hledger : s'.ledger = s.ledger)
    (h : SameFor (·.1.damage) fs fs') :
    SameFor (·.task.damage) (s.played fs) (s'.played fs') ∧
      (s'.settleAll (s'.played fs')).ledger = (s.settleAll (s.played fs)).ledger := by
  have haccount : ∀ id, s'.account id = s.account id := fun id => by
    simp only [account, hclock, hradius, hledger]
  have heach := fun id => shotsOf_played (haccount id) fs'
  have heach' := fun id => @shotsOf_played s s id rfl fs
  constructor
  · intro id
    exact (heach id).1.trans ((h id).symm ▸ (heach' id).1.symm)
  · have hrecords : ∀ id, (s'.settleAll (s'.played fs')).account id
        = (s.settleAll (s.played fs)).account id := fun id =>
      (heach id).2.trans ((h id).symm ▸ (heach' id).2.symm)
    generalize (s'.settleAll (s'.played fs')) = q', (s.settleAll (s.played fs)) = q at hrecords
    have heq : q'.ledger.records = q.ledger.records := Std.ExtTreeMap.ext_getElem? fun id =>
      congrArg (fun x => x.2.2) (hrecords id)
    exact congrArg Ledger.mk heq

/-- After some firings their cells are no longer pending, and all others are as they were. -/
theorem contains_settleAll (s : Scheduler) (xs : List Shot) (w : WorldName) (a : Pos) :
    (s.settleAll xs).pending.contains w a
      = (s.pending.contains w a && !decide ((w, a) ∈ xs.map fun x => x.task.cell)) := by
  induction xs generalizing s with
  | nil => simp [settleAll]
  | cons x rest ih =>
      have hone : (s.settle x.task x.outcome).2.pending.contains w a
          = (s.pending.contains w a && !decide (x.task.cell = (w, a))) := by
        show (s.pending.remove x.task.world x.task.pos).2.contains w a = _
        rw [Pending.contains_remove]
        simp [Task.cell]
      show ((s.settle x.task x.outcome).2.settleAll rest).pending.contains w a = _
      rw [ih, hone, Bool.and_assoc, ← Bool.not_or, ← Bool.decide_or, List.map_cons]
      congr 2
      rw [decide_eq_decide, List.mem_cons, @eq_comm _ (w, a)]

end Scheduler

end Mend
