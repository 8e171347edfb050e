import Mathlib.Data.List.TakeWhile
import Mend.Proofs.Queue.Waiting

set_option autoImplicit false

/-! # Which items wait for which deadline, and in which order

The entries of an agenda are kept sorted by deadline. On a sorted agenda, scheduling an item puts
it behind the items of its deadline and leaves those of every other deadline as they are
(`Agenda.itemsAt_schedule`), and draining takes whole deadlines (`Agenda.itemsAt_later`). Where
nothing is overdue, what is drained are the items of a single deadline (`Agenda.due_eq_itemsAt`),
so items of one deadline come out in the order in which they were put down. -/

namespace Mend

namespace Agenda

variable {α : Type}

/-- The items that fall due on the given tick, in their order. -/
def itemsAt (a : Agenda α) (deadline : Tick) : List α :=
  (a.entries.filter (·.1 = deadline)).map Prod.snd

/-- The entries are sorted by deadline. -/
def Sorted (a : Agenda α) : Prop := a.entries.Pairwise (·.1 ≤ ·.1)

theorem sorted_empty : (empty : Agenda α).Sorted := List.Pairwise.nil

@[simp] theorem itemsAt_empty (deadline : Tick) : (empty : Agenda α).itemsAt deadline = [] := rfl

variable {a : Agenda α}

theorem mem_itemsAt {deadline : Tick} {item : α} :
    item ∈ a.itemsAt deadline ↔ (deadline, item) ∈ a.entries := by
  simp [itemsAt]

/-! ## Scheduling -/

theorem mem_insertEntry {deadline : Tick} {item : α} {es : List (Tick × α)} {e : Tick × α} :
    e ∈ insertEntry deadline item es ↔ e ∈ es ∨ e = (deadline, item) := by
  rw [(insertEntry_perm deadline item es).mem_iff, List.mem_append, List.mem_singleton]

theorem sorted_insertEntry (deadline : Tick) (item : α) {es : List (Tick × α)}
    (h : es.Pairwise (·.1 ≤ ·.1)) : (insertEntry deadline item es).Pairwise (·.1 ≤ ·.1) := by
  induction es with
  | nil => exact List.pairwise_singleton _ _
  | cons e rest ih =>
      rw [List.pairwise_cons] at h
      unfold insertEntry
      split_ifs with hle
      · refine List.pairwise_cons.2 ⟨fun e' he' => ?_, ih h.2⟩
        rcases mem_insertEntry.1 he' with he' | rfl
        · exact h.1 e' he'
        · exact hle
      · -- everything from here on falls due later than the new entry
        have hlt := Capped.le_of_lt (Capped.not_le.1 hle)
        refine List.pairwise_cons.2 ⟨fun e' he' => ?_, List.pairwise_cons.2 h⟩
        rcases List.mem_cons.1 he' with rfl | he'
        · exact hlt
        · exact Capped.le_trans hlt (h.1 e' he')

theorem Sorted.schedule (h : a.Sorted) (deadline : Tick) (item : α) :
    (a.schedule deadline item).Sorted :=
  sorted_insertEntry deadline item h

theorem filter_insertEntry (deadline d : Tick) (item : α) {es : List (Tick × α)}
    (h : es.Pairwise (·.1 ≤ ·.1)) :
    (insertEntry deadline item es).filter (·.1 = d)
      = es.filter (·.1 = d) ++ if deadline = d then [(deadline, item)] else [] := by
  induction es with
  | nil => by_cases hd : deadline = d <;> simp [insertEntry, hd]
  | cons e rest ih =>
      rw [List.pairwise_cons] at h
      unfold insertEntry
      split_ifs with hle hd hd
      · rw [List.filter_cons, ih h.2, if_pos hd, List.filter_cons]
        split_ifs <;> rfl
      · rw [List.filter_cons, ih h.2, if_neg hd, List.filter_cons, List.append_nil, List.append_nil]
      · -- the new entry stands before everything that falls due later than it does
        have hnone : (e :: rest).filter (·.1 = d) = [] := by
          rw [List.filter_eq_nil_iff]
          intro e' he' heq
          replace heq : e'.1 = deadline := (of_decide_eq_true heq).trans hd.symm
          rcases List.mem_cons.1 he' with rfl | he'
          · exact hle (heq ▸ Capped.le_refl _)
          · exact hle (heq ▸ h.1 e' he')
        rw [List.filter_cons_of_pos (by simpa using hd), hnone, List.nil_append]
      · rw [List.filter_cons_of_neg (by simpa using hd), List.append_nil]

/-- Scheduling puts an item behind those of its deadline. -/
theorem itemsAt_schedule (h : a.Sorted) (deadline d : Tick) (item : α) :
    (a.schedule deadline item).itemsAt d
      = a.itemsAt d ++ if deadline = d then [item] else [] := by
  rw [itemsAt, schedule, filter_insertEntry deadline d item h, List.map_append, itemsAt]
  split_ifs <;> rfl

/-! ## Draining -/

/-- On a sorted agenda the entries due by a tick come first. -/
theorem takeWhile_eq_filter {now : Tick} {es : List (Tick × α)}
    (h : es.Pairwise (·.1 ≤ ·.1)) :
    es.takeWhile (fun e => e.1 ≤ now) = es.filter (fun e => e.1 ≤ now) ∧
      es.dropWhile (fun e => e.1 ≤ now) = es.filter (fun e => now < e.1) := by
  induction es with
  | nil => exact ⟨rfl, rfl⟩
  | cons e rest ih =>
      rw [List.pairwise_cons] at h
      by_cases hle : e.1 ≤ now
      · simp [hle, Capped.not_lt.2 hle, ih h.2]
      · -- from here on everything falls due later
        have hlater : ∀ e' ∈ e :: rest, now < e'.1 := by
          intro e' he'
          rcases List.mem_cons.1 he' with rfl | he'
          · exact Capped.not_le.1 hle
          · exact Capped.lt_of_lt_of_le (Capped.not_le.1 hle) (h.1 e' he')
        have hnone : (e :: rest).filter (fun e => e.1 ≤ now) = [] :=
          List.filter_eq_nil_iff.2 fun e' he' hle' =>
            Capped.not_le.2 (hlater e' he') (of_decide_eq_true hle')
        have hall : (e :: rest).filter (fun e => now < e.1) = e :: rest :=
          List.filter_eq_self.2 fun e' he' => decide_eq_true (hlater e' he')
        rw [hnone, hall]
        simp [hle]

theorem Sorted.later (h : a.Sorted) (now : Tick) : (a.later now).Sorted :=
  h.sublist (List.dropWhile_sublist _)

theorem mem_entries_later (h : a.Sorted) {now : Tick} {e : Tick × α} :
    e ∈ (a.later now).entries ↔ e ∈ a.entries ∧ now < e.1 := by
  simp [Agenda.later, (takeWhile_eq_filter h).2]

/-- Draining leaves the items of every later deadline as they are. -/
theorem itemsAt_later (h : a.Sorted) {now d : Tick} (hd : now < d) :
    (a.later now).itemsAt d = a.itemsAt d := by
  rw [itemsAt, later, (takeWhile_eq_filter h).2, List.filter_filter, itemsAt]
  congr 1
  refine List.filter_congr fun e _ => ?_
  by_cases he : e.1 = d <;> simp [he, hd]

/-- Where nothing is overdue, what is due are the items of this tick. -/
theorem due_eq_itemsAt (h : a.Sorted) {now : Tick} (hnow : ∀ e ∈ a.entries, now ≤ e.1) :
    a.due now = a.itemsAt now := by
  rw [due, (takeWhile_eq_filter h).1, itemsAt]
  congr 1
  refine List.filter_congr fun e he => ?_
  exact decide_eq_decide.2 ⟨fun hge => Capped.le_antisymm hge (hnow e he),
    fun heq => heq ▸ Capped.le_refl _⟩

end Agenda

end Mend
