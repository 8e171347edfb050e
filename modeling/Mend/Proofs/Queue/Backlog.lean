import Mathlib.Data.List.Induction
import Mend.Proofs.Queue.Deadlines
import Mend.Proofs.Queue.StableOrder

set_option autoImplicit false

/-! # What waits on an agenda

The entries that wait can be listed in the order in which they were put down. Whatever calls were
made on an agenda, it keeps its entries as sorting that list would arrange them
(`Agenda.entries_ofCalls`), and so it answers every question as the list does
(`Agenda.answers_ofCalls`). -/

namespace Mend

namespace Agenda

variable {α : Type}

/-! ## Calls -/

/-- A call that changes an agenda. -/
inductive Call (α : Type) where
  | schedule (deadline : Tick) (item : α)
  | drain (now : Tick)
  | clear
deriving DecidableEq

/-- The agenda after a call. -/
def after (a : Agenda α) : Call α → Agenda α
  | .schedule deadline item => a.schedule deadline item
  | .drain now => (a.drain now).2
  | .clear => a.clear.2

/-- The agenda after a list of calls. -/
def ofCalls (calls : List (Call α)) : Agenda α := calls.foldl after empty

/-- What waits after a call, if `entries` waited before, in the order in which it was put down. -/
def Call.leave (entries : List (Tick × α)) : Call α → List (Tick × α)
  | .schedule deadline item => entries ++ [(deadline, item)]
  | .drain now => entries.filter (now < ·.1)
  | .clear => []

/-- The entries that were put down and neither drained nor cleared since, in the order in which they
    were put down. -/
def waiting (calls : List (Call α)) : List (Tick × α) := calls.foldl Call.leave []

variable {a : Agenda α} {entries : List (Tick × α)}

/-- A call keeps the agenda arranged as sorting arranges what waits. -/
theorem entries_after (h : a.entries = stableSort Prod.fst entries) (c : Call α) :
    (a.after c).entries = stableSort Prod.fst (c.leave entries) := by
  have hsorted := sorted_stableSort Prod.fst entries
  cases c with
  | schedule deadline item =>
      show insertEntry deadline item a.entries = _
      rw [h]
      refine eq_stableSort (sorted_insertEntry deadline item hsorted) fun d => ?_
      rw [filter_insertEntry deadline d item hsorted, sameFor_stableSort Prod.fst entries,
        Call.leave, List.filter_append]
      by_cases hd : deadline = d <;> simp [hd]
  | drain now =>
      show a.entries.dropWhile _ = _
      rw [h, (takeWhile_eq_filter hsorted).2, filter_stableSort, Call.leave]
  | clear => exact (stableSort_nil Prod.fst).symm

theorem entries_ofCalls (calls : List (Call α)) :
    (ofCalls calls).entries = stableSort Prod.fst (waiting calls) := by
  induction calls using List.reverseRecOn with
  | nil => exact (stableSort_nil Prod.fst).symm
  | append_singleton calls c ih =>
      rw [ofCalls, waiting, List.foldl_concat, List.foldl_concat]
      exact entries_after ih c

/-! ## Questions -/

/-- The agenda answers as the list `entries` of what waits, in the order in which it was put
    down. -/
structure Answers (a : Agenda α) (entries : List (Tick × α)) : Prop where
  /-- What is due comes in the order of the deadlines, and on one tick in the order of the list. -/
  drained : ∀ now,
    (a.drain now).1 = (stableSort Prod.fst (entries.filter (·.1 ≤ now))).map Prod.snd
  cleared : a.clear.1 = entries.length
  size : a.size = entries.length
  isEmpty_iff : a.isEmpty = true ↔ entries = []
  next?_iff : ∀ d, a.next? = some d ↔ d ∈ entries.map Prod.fst ∧ ∀ e ∈ entries, d ≤ e.1

/-- The earliest deadline is the least of all. -/
theorem next?_eq_some_iff (h : a.Sorted) {d : Tick} :
    a.next? = some d ↔ d ∈ a.entries.map Prod.fst ∧ ∀ e ∈ a.entries, d ≤ e.1 := by
  unfold Sorted at h
  unfold next?
  cases hes : a.entries with
  | nil => simp
  | cons e rest =>
      rw [hes] at h
      constructor
      · rintro ⟨⟩
        exact ⟨List.mem_cons_self, fun e' he' => key_head_le h he'⟩
      · rintro ⟨hd, hleast⟩
        obtain ⟨e', he', rfl⟩ := List.mem_map.1 hd
        exact congrArg some (Capped.le_antisymm (key_head_le h he') (hleast e List.mem_cons_self))

theorem answers_of_entries (h : a.entries = stableSort Prod.fst entries) : a.Answers entries where
  drained now := by
    show (a.entries.takeWhile _).map _ = _
    rw [h, (takeWhile_eq_filter (sorted_stableSort Prod.fst entries)).1, filter_stableSort]
  cleared := by rw [clear, size, h, length_stableSort]
  size := by rw [size, h, length_stableSort]
  isEmpty_iff := by
    rw [isEmpty, h, List.isEmpty_iff, ← List.length_eq_zero_iff, length_stableSort,
      List.length_eq_zero_iff]
  next?_iff d := by
    have hsorted : a.Sorted := by
      rw [Sorted, h]
      exact sorted_stableSort Prod.fst entries
    have hperm := perm_stableSort Prod.fst entries
    rw [next?_eq_some_iff hsorted, h, (hperm.map Prod.fst).mem_iff]
    simp only [hperm.mem_iff]

theorem answers_ofCalls (calls : List (Call α)) : (ofCalls calls).Answers (waiting calls) :=
  answers_of_entries (entries_ofCalls calls)

/-! ## Draining in two steps -/

/-- What a first test takes from the front of a list and then a weaker one, the weaker one takes at
    once. -/
theorem takeWhile_dropWhile {p q : α → Bool} (h : ∀ x, p x = true → q x = true) (xs : List α) :
    xs.takeWhile p ++ (xs.dropWhile p).takeWhile q = xs.takeWhile q ∧
      (xs.dropWhile p).dropWhile q = xs.dropWhile q := by
  induction xs with
  | nil => exact ⟨rfl, rfl⟩
  | cons x rest ih =>
      cases hp : p x with
      | true => simp [hp, h x hp, ih]
      | false => simp [hp]

/-- Draining in two steps takes what draining once at the later time does, in the same order. -/
theorem drain_drain (a : Agenda α) {n₁ n₂ : Tick} (hle : n₁ ≤ n₂) :
    (a.drain n₁).1 ++ ((a.drain n₁).2.drain n₂).1 = (a.drain n₂).1 ∧
      ((a.drain n₁).2.drain n₂).2 = (a.drain n₂).2 := by
  have hweaker : ∀ e : Tick × α, decide (e.1 ≤ n₁) = true → decide (e.1 ≤ n₂) = true :=
    fun e he => decide_eq_true (Capped.le_trans (of_decide_eq_true he) hle)
  obtain ⟨htaken, hleft⟩ := takeWhile_dropWhile hweaker a.entries
  refine ⟨?_, congrArg Agenda.mk hleft⟩
  simp only [drain, due, later, ← List.map_append, htaken]

end Agenda

end Mend
