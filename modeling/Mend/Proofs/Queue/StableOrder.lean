import Mathlib.Data.List.Perm.Basic
import Mathlib.Tactic.SplitIfs

set_option autoImplicit false

/-! # Lists by key

Two lists are *the same for each key* if they have, for every key, the same entries with that key in
the same order (`SameFor`). Such lists have the same entries, but those of different keys may follow
each other differently. If both are sorted by the key there is no room for that, and they are equal
(`SameFor.eq_of_sorted`). So a list that is kept sorted while entries come and go, those of each key
in the order they had, is what sorting the entries would make of them (`eq_stableSort`). -/

namespace Mend

/-! ## Lists that are the same for each key -/

/-- For each key the second list has the entries that the first has, in the same order. -/
def SameFor {α κ : Type} [DecidableEq κ] (key : α → κ) (xs ys : List α) : Prop :=
  ∀ k, ys.filter (key · = k) = xs.filter (key · = k)

namespace SameFor

variable {α β κ : Type} [DecidableEq κ] {key : α → κ} {xs ys xs' ys' : List α}

theorem refl (xs : List α) : SameFor key xs xs := fun _ => rfl

theorem append (h : SameFor key xs ys) (h' : SameFor key xs' ys') :
    SameFor key (xs ++ xs') (ys ++ ys') := by
  intro k
  rw [List.filter_append, List.filter_append, h, h']

theorem trans {zs : List α} (h : SameFor key xs ys) (h' : SameFor key ys zs) : SameFor key xs zs :=
  fun k => (h' k).trans (h k)

/-- Entries may change places with entries whose keys they do not have. -/
theorem swap (h : ∀ x ∈ xs, ∀ y ∈ ys, key x ≠ key y) : SameFor key (xs ++ ys) (ys ++ xs) := by
  intro k
  rw [List.filter_append, List.filter_append]
  by_cases hk : ∃ x ∈ xs, key x = k
  · -- then none of the entries of the other list has the key
    obtain ⟨x, hx, rfl⟩ := hk
    have hnone : ys.filter (key · = key x) = [] :=
      List.filter_eq_nil_iff.2 fun y hy heq => h x hx y hy (of_decide_eq_true heq).symm
    rw [hnone, List.append_nil, List.nil_append]
  · have hnone : xs.filter (key · = k) = [] :=
      List.filter_eq_nil_iff.2 fun x hx heq => hk ⟨x, hx, of_decide_eq_true heq⟩
    rw [hnone, List.append_nil, List.nil_append]

theorem map {key' : β → κ} (h : SameFor key xs ys) (f : α → β) (hf : ∀ x, key' (f x) = key x) :
    SameFor key' (xs.map f) (ys.map f) := by
  intro k
  rw [List.filter_map, List.filter_map]
  simp only [Function.comp_def, hf]
  rw [h]

theorem filter (h : SameFor key xs ys) (test : α → Bool) :
    SameFor key (xs.filter test) (ys.filter test) := by
  intro k
  rw [List.filter_comm, h, List.filter_comm]

theorem mem_iff (h : SameFor key xs ys) {x : α} : x ∈ ys ↔ x ∈ xs := by
  have hown : ∀ zs : List α, x ∈ zs.filter (key · = key x) ↔ x ∈ zs := by simp
  rw [← hown ys, h, hown]

theorem perm [DecidableEq α] (h : SameFor key xs ys) : ys.Perm xs := by
  refine List.perm_iff_count.2 fun x => ?_
  have hown : ∀ zs : List α, (zs.filter (key · = key x)).count x = zs.count x :=
    fun zs => List.count_filter (decide_eq_true rfl)
  rw [← hown ys, h, hown]

end SameFor

/-! ## Sorting -/

section Sorting

variable {α κ : Type} [LE κ] [DecidableLE κ]

/-- The list sorted by a key. Entries with the same key stay in the order they had. -/
def stableSort (key : α → κ) (xs : List α) : List α := xs.mergeSort fun x y => key x ≤ key y

variable (key : α → κ) (xs : List α)

@[simp] theorem stableSort_nil : stableSort key [] = [] := List.mergeSort_nil

theorem perm_stableSort : (stableSort key xs).Perm xs := List.mergeSort_perm xs _

@[simp] theorem length_stableSort : (stableSort key xs).length = xs.length :=
  (perm_stableSort key xs).length_eq

variable [Std.IsLinearOrder κ]

theorem key_le_trans (x y z : α) (h : decide (key x ≤ key y) = true)
    (h' : decide (key y ≤ key z) = true) : decide (key x ≤ key z) = true :=
  decide_eq_true (Std.le_trans (of_decide_eq_true h) (of_decide_eq_true h'))

theorem key_le_total (x y : α) : (decide (key x ≤ key y) || decide (key y ≤ key x)) = true := by
  simpa using Std.le_total

theorem sorted_stableSort : (stableSort key xs).Pairwise (key · ≤ key ·) :=
  (List.pairwise_mergeSort (key_le_trans key) (key_le_total key) xs).imp of_decide_eq_true

theorem sameFor_stableSort [DecidableEq κ] : SameFor key xs (stableSort key xs) := by
  intro k
  -- entries with one key are sorted as they stand, so sorting keeps them in their order
  have hsorted : (xs.filter (key · = k)).Pairwise fun x y => decide (key x ≤ key y) = true := by
    refine List.pairwise_iff_forall_sublist.2 fun {x y} hxy => ?_
    have hx := (List.mem_filter.1 (hxy.subset List.mem_cons_self)).2
    have hy := (List.mem_filter.1 (hxy.subset (List.mem_cons_of_mem _ List.mem_cons_self))).2
    exact decide_eq_true (of_decide_eq_true hx ▸ of_decide_eq_true hy ▸ Std.le_refl _)
  have hsub := (List.sublist_mergeSort (key_le_trans key) (key_le_total key) hsorted
    List.filter_sublist).filter (key · = k)
  rw [List.filter_filter] at hsub
  simp only [Bool.and_self] at hsub
  exact (hsub.eq_of_length ((perm_stableSort key xs).filter _).length_eq.symm).symm

end Sorting

section Unique

variable {α κ : Type} [LE κ] [Std.IsLinearOrder κ] {key : α → κ} {xs ys : List α}

/-- The first entry of a sorted list has the least key. -/
theorem key_head_le {x y : α} (h : (x :: xs).Pairwise (key · ≤ key ·)) (hy : y ∈ x :: xs) :
    key x ≤ key y := by
  rcases List.mem_cons.1 hy with rfl | hy
  · exact Std.le_refl _
  · exact (List.pairwise_cons.1 h).1 y hy

variable [DecidableEq κ]

namespace SameFor

omit [LE κ] [Std.IsLinearOrder κ] in
/-- Behind a common first entry the lists are the same for each key as well. -/
theorem of_cons {x : α} (h : SameFor key (x :: xs) (x :: ys)) : SameFor key xs ys := by
  intro k
  have hk := h k
  rw [List.filter_cons, List.filter_cons] at hk
  split_ifs at hk
  · exact List.tail_eq_of_cons_eq hk
  · exact hk

/-- Sorted lists that are the same for each key are equal. -/
theorem eq_of_sorted (h : SameFor key xs ys) (hxs : xs.Pairwise (key · ≤ key ·))
    (hys : ys.Pairwise (key · ≤ key ·)) : ys = xs := by
  induction xs generalizing ys with
  | nil => exact List.eq_nil_iff_forall_not_mem.2 fun y hy => List.not_mem_nil (h.mem_iff.1 hy)
  | cons x xs ih =>
      cases ys with
      | nil => exact absurd (h.mem_iff.2 List.mem_cons_self) List.not_mem_nil
      | cons y ys =>
          -- each of the two comes first of all entries with the least key
          have hkey : key y = key x :=
            Std.le_antisymm (key_head_le hys (h.mem_iff.2 List.mem_cons_self))
              (key_head_le hxs (h.mem_iff.1 List.mem_cons_self))
          have hfirst := h (key x)
          rw [List.filter_cons_of_pos (by simpa using hkey),
            List.filter_cons_of_pos (by simp)] at hfirst
          obtain rfl := (List.cons.inj hfirst).1
          rw [ih h.of_cons (List.pairwise_cons.1 hxs).2 (List.pairwise_cons.1 hys).2]

end SameFor

variable [DecidableLE κ]

/-- Sorting is the only way to have a list sorted and the same for each key. -/
theorem eq_stableSort (hys : ys.Pairwise (key · ≤ key ·)) (h : SameFor key xs ys) :
    ys = stableSort key xs := by
  refine SameFor.eq_of_sorted (fun k => ?_) (sorted_stableSort key xs) hys
  rw [h, sameFor_stableSort]

/-- Some entries of a sorted list are these entries sorted. -/
theorem filter_stableSort (test : α → Bool) :
    (stableSort key xs).filter test = stableSort key (xs.filter test) :=
  eq_stableSort ((sorted_stableSort key xs).filter test) ((sameFor_stableSort key xs).filter test)

end Unique

end Mend
