import Mathlib.Data.List.Perm.Basic
import Mend.Damage.Tally

set_option autoImplicit false

/-! # Tallies of many outcomes

Recording outcomes one after the other adds up how often each of them occurs
(`Tally.val_count_foldl_record`), so their order does not matter (`Tally.foldl_record_perm`). -/

namespace Mend

namespace Tally

variable {m : Nat}

/-- Recording outcomes one after the other adds up, under the cap, how often each occurs. -/
theorem val_count_foldl_record (os : List Outcome) (t : Tally m) (o : Outcome) :
    ((os.foldl Tally.record t).count o).val = min ((t.count o).val + os.count o) m := by
  induction os generalizing t with
  | nil => exact (Nat.min_eq_left (t.count o).le_max).symm
  | cons p rest ih =>
      rw [List.foldl_cons, ih, count_record, List.count_cons]
      by_cases h : o = p
      · simp only [h, if_true, beq_self_eq_true, Capped.val_add, Capped.val_ofNat]
        omega
      · rw [if_neg h, if_neg (fun e => h (beq_iff_eq.1 e).symm), Nat.add_zero]

/-- However a cell comes out, the tally has one more, under the cap. -/
theorem val_total_record (t : Tally m) (o : Outcome) :
    (t.record o).total.val = min (t.total.val + 1) m := by
  cases o <;> simp only [record, total, Capped.val_add, Capped.val_ofNat] <;> omega

/-- The total of a tally is the number of outcomes recorded in it, under the cap. -/
theorem val_total_foldl_record (os : List Outcome) (t : Tally m) :
    (os.foldl Tally.record t).total.val = min (t.total.val + os.length) m := by
  induction os generalizing t with
  | nil => exact (Nat.min_eq_left t.total.le_max).symm
  | cons o rest ih =>
      rw [List.foldl_cons, ih, t.val_total_record, List.length_cons]
      omega

/-- As long as their number fits, a tally counts the outcomes recorded in it. -/
theorem val_count_of_length_le {os : List Outcome} (h : os.length ≤ m) (o : Outcome) :
    ((os.foldl record (zero : Tally m)).count o).val = os.count o := by
  have hcount : os.count o ≤ os.length := List.count_le_length
  rw [val_count_foldl_record]
  cases o <;> simp only [zero, count, Capped.val_ofNat] <;> omega

/-- A tally does not depend on the order in which outcomes are recorded in it. -/
theorem foldl_record_perm {os os' : List Outcome} (h : os'.Perm os) (tally : Tally m) :
    os'.foldl record tally = os.foldl record tally := by
  have hcomm : ∀ (t : Tally m) (o p : Outcome), (t.record o).record p = (t.record p).record o := by
    intro t o p
    cases o <;> cases p <;> rfl
  have hright : RightCommutative (record : Tally m → Outcome → Tally m) := ⟨hcomm⟩
  exact h.foldl_eq tally

end Tally

end Mend
