import Mathlib.Data.List.Induction
import Mend.Proofs.Queue.Elevations

set_option autoImplicit false

/-! # What was merged into a layer queue

A layer may be merged with any tasks and at any elevation, whether they stand there or not. The
tasks that were merged and not taken out since can be listed, each with the elevation of its layer,
in the order in which they came. The layers of a queue are that list by elevation: they ascend,
none is empty, and each holds the tasks that were merged at its elevation (`Layer.Shelved`). Putting
a layer in and taking the lowest out keep that, whatever calls were made on the queue before. -/

namespace Mend

namespace Layer

variable {l layer : Layer} {ls rest : List Layer} {merged : List (Coord × Task)}

/-- The layers ascend strictly, none is empty, and each holds the tasks of the list that have its
    elevation, in the order of the list. -/
structure Shelved (ls : List Layer) (merged : List (Coord × Task)) : Prop where
  ascending : ls.Pairwise (·.elevation < ·.elevation)
  filled : ∀ l ∈ ls, l.tasks ≠ []
  same : SameFor Prod.fst merged (ls.flatMap entries)

namespace Shelved

theorem nil : Shelved [] [] := ⟨List.Pairwise.nil, by simp, SameFor.refl []⟩

theorem insertInto (h : Shelved ls merged) (hne : layer.tasks ≠ []) :
    Shelved (layer.insertInto ls) (merged ++ layer.entries) where
  ascending := ascending_insertInto layer h.ascending
  filled := insertInto_ne_nil hne h.filled
  same := (h.same.append (SameFor.refl _)).trans (sameFor_insertInto layer h.ascending)

/-- Putting entries in one by one appends them. -/
theorem foldl_insertInto {α : Type} (elevation : α → Coord) (task : α → Task) (xs : List α)
    (h : Shelved ls merged) :
    Shelved (xs.foldl (fun ls x => Layer.insertInto ⟨elevation x, [task x]⟩ ls) ls)
      (merged ++ xs.map fun x => (elevation x, task x)) := by
  induction xs generalizing ls merged with
  | nil => simpa using h
  | cons x rest ih =>
      have hone : Shelved (Layer.insertInto ⟨elevation x, [task x]⟩ ls)
          (merged ++ [(elevation x, task x)]) := h.insertInto (List.cons_ne_nil _ _)
      simpa using ih hone

/-! ## Reading the layers -/

theorem tail (h : Shelved (l :: rest) merged) :
    Shelved rest (merged.filter (·.1 ≠ l.elevation)) where
  ascending := (List.pairwise_cons.1 h.ascending).2
  filled l' hl' := h.filled l' (List.mem_cons_of_mem _ hl')
  same := by
    have hothers := h.same.filter (·.1 ≠ l.elevation)
    have hown : l.entries.filter (·.1 ≠ l.elevation) = [] :=
      List.filter_eq_nil_iff.2 fun e he => by simpa using fst_of_mem_entries he
    have habove : (rest.flatMap entries).filter (·.1 ≠ l.elevation) = rest.flatMap entries :=
      List.filter_eq_self.2 fun e he => by
        simpa using (Coord.ne_of_lt (lt_fst_of_ascending h.ascending e he)).symm
    rwa [List.flatMap_cons, List.filter_append, hown, habove, List.nil_append] at hothers

/-- The first layer holds what was merged at the least elevation. -/
theorem head (h : Shelved (l :: rest) merged) :
    (∀ e ∈ merged, l.elevation ≤ e.1) ∧
      l.tasks = (merged.filter (·.1 = l.elevation)).map Prod.snd := by
  have habove := lt_fst_of_ascending h.ascending
  constructor
  · intro e he
    rcases List.mem_append.1 (List.flatMap_cons ▸ h.same.mem_iff.2 he) with hown | hrest
    · rw [fst_of_mem_entries hown]
      exact Coord.le_refl _
    · exact Coord.le_of_lt (habove e hrest)
  · have hown : l.entries.filter (·.1 = l.elevation) = l.entries :=
      List.filter_eq_self.2 fun e he => by simpa using fst_of_mem_entries he
    have hnone : (rest.flatMap entries).filter (·.1 = l.elevation) = [] :=
      List.filter_eq_nil_iff.2 fun e he => by
        simpa using (Coord.ne_of_lt (habove e he)).symm
    have hsame := h.same l.elevation
    rw [List.flatMap_cons, List.filter_append, hown, hnone, List.append_nil] at hsame
    rw [← hsame, entries, List.map_map]
    exact (List.map_id _).symm

/-- Each layer holds what was merged at its elevation. -/
theorem tasks_eq (h : Shelved ls merged) (hl : l ∈ ls) :
    l.tasks = (merged.filter (·.1 = l.elevation)).map Prod.snd := by
  induction ls generalizing merged with
  | nil => exact absurd hl List.not_mem_nil
  | cons first rest ih =>
      rcases List.mem_cons.1 hl with rfl | hrest
      · exact h.head.2
      · rw [ih h.tail hrest, List.filter_filter]
        congr 1
        refine List.filter_congr fun e _ => ?_
        have hne := (Coord.ne_of_lt ((List.pairwise_cons.1 h.ascending).1 l hrest)).symm
        by_cases he : e.1 = l.elevation <;> simp [he, hne]

/-- There is a layer at an elevation just where something was merged at it. -/
theorem exists_elevation_iff (h : Shelved ls merged) {y : Coord} :
    (∃ l ∈ ls, l.elevation = y) ↔ ∃ e ∈ merged, e.1 = y := by
  constructor
  · rintro ⟨l, hl, rfl⟩
    obtain ⟨t, ht⟩ := List.exists_mem_of_ne_nil _ (h.filled l hl)
    exact ⟨(l.elevation, t),
      h.same.mem_iff.1 (List.mem_flatMap_of_mem hl (List.mem_map_of_mem ht)), rfl⟩
  · rintro ⟨e, he, rfl⟩
    obtain ⟨l, hl, he⟩ := List.mem_flatMap.1 (h.same.mem_iff.2 he)
    exact ⟨l, hl, (fst_of_mem_entries he).symm⟩

theorem eq_nil_iff (h : Shelved ls merged) : ls = [] ↔ merged = [] := by
  constructor
  · rintro rfl
    exact h.same.perm.symm.eq_nil
  · rintro rfl
    refine List.eq_nil_iff_forall_not_mem.2 fun l hl => ?_
    obtain ⟨e, he, -⟩ := h.exists_elevation_iff.1 ⟨l, hl, rfl⟩
    exact List.not_mem_nil he

/-- The layers hold what was merged and nothing else. -/
theorem tasks_perm (h : Shelved ls merged) :
    (ls.flatMap Layer.tasks).Perm (merged.map Prod.snd) := by
  have hmap : (ls.flatMap entries).map Prod.snd = ls.flatMap Layer.tasks := by
    rw [List.map_flatMap]
    congr 1
    funext l
    rw [entries, List.map_map]
    exact List.map_id _
  exact hmap ▸ h.same.perm.map Prod.snd

end Shelved

end Layer

/-! ## Calls -/

namespace LayerQueue

/-- A call that changes a layer queue. -/
inductive Call where
  | merge (layer : Layer)
  | popLowest
  | clear
deriving DecidableEq

/-- The queue after a call. -/
def after (q : LayerQueue) : Call → LayerQueue
  | .merge layer => q.merge layer
  | .popLowest => (q.popLowest.map Prod.snd).getD q
  | .clear => q.clear.2

/-- The queue after a list of calls. -/
def ofCalls (calls : List Call) : LayerQueue := calls.foldl after empty

/-- What is left after a call of the tasks that were `merged` before, each with the elevation of its
    layer: taking the lowest out leaves those above which others stand. -/
def Call.leave (merged : List (Coord × Task)) : Call → List (Coord × Task)
  | .merge layer => merged ++ layer.entries
  | .popLowest => merged.filter fun e => ∃ f ∈ merged, f.1 < e.1
  | .clear => []

/-- The tasks that were merged and neither taken out nor cleared since, each with the elevation of
    its layer, in the order in which they were merged. -/
def merged (calls : List Call) : List (Coord × Task) := calls.foldl Call.leave []

variable {q : LayerQueue} {layer : Layer} {rest : List Layer} {entries : List (Coord × Task)}

/-- Taking the lowest out leaves what was not merged at its elevation. -/
theorem leave_popLowest (h : Layer.Shelved (layer :: rest) entries) :
    Call.popLowest.leave entries = entries.filter (·.1 ≠ layer.elevation) := by
  obtain ⟨hleast, -⟩ := h.head
  obtain ⟨low, hlow, heq⟩ := h.exists_elevation_iff.1 ⟨layer, List.mem_cons_self, rfl⟩
  refine List.filter_congr fun e he => decide_eq_decide.2 ⟨?_, fun hne => ?_⟩
  · rintro ⟨f, hf, hlt⟩ heq'
    exact Coord.ne_of_lt (Coord.lt_of_le_of_lt (hleast f hf) hlt) heq'.symm
  · exact ⟨low, hlow, heq ▸ Coord.lt_of_le_of_ne (hleast e he) (Ne.symm hne)⟩

theorem shelved_after (h : Layer.Shelved q.layers entries) (c : Call) :
    Layer.Shelved (q.after c).layers (c.leave entries) := by
  cases c with
  | merge layer =>
      show Layer.Shelved (q.merge layer).layers _
      unfold merge
      split_ifs with hempty
      · simpa [Call.leave, Layer.entries, List.isEmpty_iff.1 hempty] using h
      · exact h.insertInto fun hnil => hempty (List.isEmpty_iff.2 hnil)
  | popLowest =>
      cases hq : q.layers with
      | nil =>
          have hnil : entries = [] := h.eq_nil_iff.1 hq
          simpa [after, popLowest, hq, Call.leave, hnil] using Layer.Shelved.nil
      | cons layer rest =>
          rw [hq] at h
          rw [leave_popLowest h]
          simpa [after, popLowest, hq] using h.tail
  | clear => exact Layer.Shelved.nil

theorem shelved_ofCalls (calls : List Call) :
    Layer.Shelved (ofCalls calls).layers (merged calls) := by
  induction calls using List.reverseRecOn with
  | nil => exact Layer.Shelved.nil
  | append_singleton calls c ih =>
      rw [ofCalls, merged, List.foldl_concat, List.foldl_concat]
      exact shelved_after ih c

/-! ## Questions -/

/-- The queue answers as the list `entries` of what was merged, in the order in which it was
    merged. -/
structure Answers (q : LayerQueue) (entries : List (Coord × Task)) : Prop where
  popLowest_eq_none_iff : q.popLowest = none ↔ entries = []
  /-- The lowest layer holds what was merged at the least elevation, and leaves the rest. -/
  popLowest_eq_some : ∀ layer rest, q.popLowest = some (layer, rest) →
    layer.tasks ≠ [] ∧ (∀ e ∈ entries, layer.elevation ≤ e.1) ∧
      layer.tasks = (entries.filter (·.1 = layer.elevation)).map Prod.snd ∧
      Call.popLowest.leave entries = entries.filter (·.1 ≠ layer.elevation)
  ascending : q.elevations.Pairwise (· < ·)
  mem_elevations_iff : ∀ y, y ∈ q.elevations ↔ y ∈ entries.map Prod.fst
  lowest?_eq : q.lowest? = q.elevations.head?
  size : q.size = q.elevations.length
  isEmpty_iff : q.isEmpty = true ↔ entries = []
  taskCount : q.taskCount = entries.length
  cleared : q.clear.1 = entries.length
  filled : ∀ l ∈ q.layers, l.tasks ≠ []

theorem popLowest_eq_some_iff {r : LayerQueue} :
    q.popLowest = some (layer, r) ↔ q.layers = layer :: r.layers := by
  unfold popLowest
  cases q.layers with
  | nil => simp
  | cons l rest =>
      obtain ⟨ls⟩ := r
      simp

theorem answers_of_shelved (h : Layer.Shelved q.layers entries) : q.Answers entries where
  popLowest_eq_none_iff := by
    rw [← h.eq_nil_iff]
    unfold popLowest
    cases q.layers <;> simp
  popLowest_eq_some layer r hpop := by
    rw [popLowest_eq_some_iff.1 hpop] at h
    exact ⟨h.filled layer List.mem_cons_self, h.head.1, h.head.2, leave_popLowest h⟩
  ascending := List.pairwise_map.2 h.ascending
  mem_elevations_iff y := by
    simpa [elevations] using h.exists_elevation_iff (y := y)
  lowest?_eq := rfl
  size := (List.length_map _).symm
  isEmpty_iff := by
    rw [isEmpty, List.isEmpty_iff, h.eq_nil_iff]
  taskCount := h.tasks_perm.length_eq.trans (List.length_map _)
  cleared := h.tasks_perm.length_eq.trans (List.length_map _)
  filled := h.filled

end LayerQueue

end Mend
