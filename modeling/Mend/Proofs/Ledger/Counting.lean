import Mathlib.Tactic.SplitIfs
import Mend.Ledger
import Mend.Queue.Layer

set_option autoImplicit false

/-! # The ledger counts the tasks underway

Both operations on the ledger are described by what they do to the record of each damage: opening
a record sets it, and resolving a cell charges it or, where that was the last cell, closes it and
hands it back.

`Ledger.Counts` says of a list of tasks that the ledger has a record for exactly the damage with a
task in the list, and that the record's remaining cells are the number of these tasks. Opening a
record for new tasks and resolving a task that leaves the list keep this. -/

namespace Mend

namespace Ledger

variable {l : Ledger} {id : DamageId} {r : Record}

/-! ## The record of each damage -/

theorem getElem?_register (hr : r.remaining.val ≠ 0) (k : DamageId) :
    (l.register r).records[k]? = if r.damage = k then some r else l.records[k]? := by
  rw [register, if_neg hr]
  by_cases h : r.damage = k <;> simp [Std.ExtTreeMap.getElem?_insert, h]

/-- Resolving a cell hands back the record that it closes, and no other. -/
theorem resolve_fst (h : l.records[id]? = some r) (o : Outcome) :
    (l.resolve id o).1
      = if (r.resolve o).remaining.val = 0 then some (r.resolve o) else none := by
  simp only [resolve, h]
  split <;> rfl

theorem getElem?_resolve (h : l.records[id]? = some r) (o : Outcome) (k : DamageId) :
    (l.resolve id o).2.records[k]?
      = if id = k then (if (r.resolve o).remaining.val = 0 then none else some (r.resolve o))
        else l.records[k]? := by
  simp only [resolve, h]
  by_cases hk : id = k
  · subst hk
    split <;> simp
  · split <;> simp [Std.ExtTreeMap.getElem?_erase, Std.ExtTreeMap.getElem?_insert, hk]

theorem size_register (hr : r.remaining.val ≠ 0) (hnew : l.contains r.damage = false) :
    (l.register r).size = l.size + 1 := by
  have habsent : l.records.contains r.damage = false := hnew
  rw [register, if_neg hr, size, Std.ExtTreeMap.size_insert, habsent]
  rfl

/-- Opening a record opens no other. -/
theorem contains_of_register (h : (l.register r).contains id = true) :
    r.damage = id ∨ l.contains id = true := by
  unfold register at h
  split_ifs at h
  · exact Or.inr h
  · simpa [contains] using h

/-- Resolving a cell opens no record. -/
theorem contains_of_resolve {k : DamageId} {o : Outcome}
    (h : (l.resolve k o).2.contains id = true) : l.contains id = true := by
  unfold resolve at h
  cases hk : l.records[k]? with
  | none => simpa [hk] using h
  | some r =>
      have hmem : l.contains k = true := by
        rw [contains, Std.ExtTreeMap.contains_eq_isSome_getElem?, hk]
        rfl
      simp only [hk] at h
      by_cases hid : k = id
      · exact hid ▸ hmem
      · split at h <;> simpa [contains, hid] using h

/-- What resolving a cell hands back and leaves depends only on the record of its damage. -/
theorem resolve_congr {l' : Ledger} (h : l'.records[id]? = l.records[id]?) (o : Outcome) :
    (l'.resolve id o).1 = (l.resolve id o).1 ∧
      (l'.resolve id o).2.records[id]? = (l.resolve id o).2.records[id]? := by
  cases hr : l.records[id]? with
  | none =>
      rw [resolve_of_not_contains hr, resolve_of_not_contains (h.trans hr)]
      exact ⟨rfl, h⟩
  | some r =>
      rw [resolve_fst hr, resolve_fst (h.trans hr), getElem?_resolve hr,
        getElem?_resolve (h.trans hr), if_pos rfl, if_pos rfl]
      exact ⟨rfl, rfl⟩

/-- Resolving a cell leaves the records of other damage as they are. -/
theorem getElem?_resolve_other {k : DamageId} (hne : id ≠ k) (o : Outcome) :
    (l.resolve id o).2.records[k]? = l.records[k]? := by
  cases hr : l.records[id]? with
  | none => rw [resolve_of_not_contains hr]
  | some r => rw [getElem?_resolve hr, if_neg hne]

/-! ## Counting -/

/-- Of the damage in `ts`, the ledger has a record for each and for no other, and what remains of
    it is the number of its tasks. -/
structure Counts (l : Ledger) (ts : List Task) : Prop where
  absent : ∀ id, l.records[id]? = none → ts.countP (·.damage = id) = 0
  present : ∀ id r, l.records[id]? = some r →
    r.remaining.val = ts.countP (·.damage = id) ∧ 0 < r.remaining.val

theorem counts_empty : empty.Counts [] where
  absent _ _ := rfl
  present id r h := by simp [empty] at h

variable {ts : List Task}

theorem Counts.perm {ts' : List Task} (h : l.Counts ts) (hperm : ts.Perm ts') : l.Counts ts' where
  absent id hid := (hperm.countP_eq _).symm.trans (h.absent id hid)
  present id r hid := by
    rw [← hperm.countP_eq]
    exact h.present id r hid

/-- Damage has a record exactly if it has a task. -/
theorem Counts.contains_iff (h : l.Counts ts) (id : DamageId) :
    l.contains id = true ↔ ∃ t ∈ ts, t.damage = id := by
  rw [contains, Std.ExtTreeMap.contains_eq_isSome_getElem?]
  cases hid : l.records[id]? with
  | none =>
      have hzero := List.countP_eq_zero.1 (h.absent id hid)
      simpa using hzero
  | some r =>
      obtain ⟨hcount, hpos⟩ := h.present id r hid
      have hex := List.countP_pos_iff.1 (hcount ▸ hpos)
      simpa using hex

theorem Counts.remaining?_eq_some (h : l.Counts ts) {n : Count} (hn : l.remaining? id = some n) :
    n.val = ts.countP (·.damage = id) := by
  obtain ⟨r, hr, rfl⟩ := Option.map_eq_some_iff.1 hn
  exact (h.present id r hr).1

/-- A ledger that counts no tasks has no records. -/
theorem Counts.isEmpty_of_nil (h : l.Counts []) : l.isEmpty = true := by
  rw [isEmpty, Std.ExtTreeMap.isEmpty_iff]
  refine Std.ExtTreeMap.ext_getElem? fun id => ?_
  rw [Std.ExtTreeMap.getElem?_empty]
  cases hid : l.records[id]? with
  | none => rfl
  | some r =>
      obtain ⟨hcount, hpos⟩ := h.present id r hid
      rw [hcount] at hpos
      exact absurd hpos (Nat.lt_irrefl 0)

/-- Opening a record for tasks of damage that had none. -/
theorem Counts.register (h : l.Counts ts) {new : List Task}
    (hnone : ts.countP (·.damage = r.damage) = 0) (hnew : ∀ t ∈ new, t.damage = r.damage)
    (hlength : r.remaining.val = new.length) (hpos : 0 < new.length) :
    (l.register r).Counts (ts ++ new) := by
  have hne : r.remaining.val ≠ 0 := by omega
  have hcount : ∀ k, new.countP (·.damage = k) = if r.damage = k then new.length else 0 := by
    intro k
    split_ifs with hk
    · exact List.countP_eq_length.2 fun t ht => decide_eq_true (hk ▸ hnew t ht)
    · exact List.countP_eq_zero.2 fun t ht => by simpa [hnew t ht] using hk
  constructor
  · intro k hk
    rw [getElem?_register hne] at hk
    rw [List.countP_append, hcount]
    split_ifs at hk ⊢ with heq
    rw [h.absent k hk]
  · intro k q hk
    rw [getElem?_register hne] at hk
    rw [List.countP_append, hcount]
    split_ifs at hk ⊢ with heq
    · cases hk
      subst heq
      omega
    · exact h.present k q hk

theorem val_remaining_resolve (r : Record) (o : Outcome) :
    (r.resolve o).remaining.val = r.remaining.val - 1 :=
  Capped.val_sub r.remaining 1

/-- A task that is counted has a record. -/
theorem Counts.exists_record {t : Task} (h : l.Counts (t :: ts)) :
    ∃ r, l.records[t.damage]? = some r ∧
      r.remaining.val = ts.countP (·.damage = t.damage) + 1 := by
  have hcount : (t :: ts).countP (·.damage = t.damage) = ts.countP (·.damage = t.damage) + 1 :=
    List.countP_cons_of_pos (decide_eq_true rfl)
  cases hr : l.records[t.damage]? with
  | none =>
      have hzero := h.absent t.damage hr
      omega
  | some r => exact ⟨r, rfl, (h.present t.damage r hr).1.trans hcount⟩

/-- Resolving a task that leaves the list. -/
theorem Counts.resolve {t : Task} (h : l.Counts (t :: ts)) (o : Outcome) :
    (l.resolve t.damage o).2.Counts ts := by
  obtain ⟨r, hr, hremaining⟩ := h.exists_record
  have hother : ∀ k, t.damage ≠ k → (t :: ts).countP (·.damage = k) = ts.countP (·.damage = k) :=
    fun k hk => List.countP_cons_of_neg (by simpa using hk)
  constructor
  · intro k hk
    rw [getElem?_resolve hr, val_remaining_resolve] at hk
    split_ifs at hk with heq hzero
    · subst heq
      omega
    · rw [← hother k heq]
      exact h.absent k hk
  · intro k q hk
    rw [getElem?_resolve hr, val_remaining_resolve] at hk
    split_ifs at hk with heq hzero
    · cases hk
      subst heq
      rw [val_remaining_resolve]
      omega
    · rw [← hother k heq]
      exact h.present k q hk

end Ledger

end Mend
