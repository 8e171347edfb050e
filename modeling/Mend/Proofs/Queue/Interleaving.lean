import Mend.Proofs.Queue.Deadlines
import Mend.Proofs.Queue.Elevations

set_option autoImplicit false

/-! # Queues that interleave the tasks of different damage differently

Both queues stay the same for each damage (`SameFor`) when that is how they are filled. Putting an
entry on an agenda puts it at its place among the entries of any one kind
(`Agenda.filter_schedule`), and what is due and what is not are the entries of two kinds. Layer
queues are compared elevation by elevation: their lowest layers then stand at the same elevation,
and are the same for each damage (`LayerQueue.Ordered.cases_of_sameFor`). -/

namespace Mend

/-! ## Agendas -/

namespace Agenda

variable {α : Type} {a : Agenda α}

/-- An entry stands in front of entries that all fall due later. -/
theorem insertEntry_of_lt {deadline : Tick} {item : α} {es : List (Tick × α)}
    (h : ∀ e ∈ es, deadline < e.1) : insertEntry deadline item es = (deadline, item) :: es := by
  cases es with
  | nil => rfl
  | cons e rest => exact if_neg (Capped.not_le.2 (h e List.mem_cons_self))

/-- Among the entries of any kind, a new entry of that kind takes the place that it would take if
    there were no others. -/
theorem filter_schedule (h : a.Sorted) (test : Tick × α → Bool) (deadline : Tick) (item : α) :
    (a.schedule deadline item).entries.filter test
      = if test (deadline, item) then insertEntry deadline item (a.entries.filter test)
        else a.entries.filter test := by
  obtain ⟨es⟩ := a
  show (insertEntry deadline item es).filter test = if test (deadline, item) then
    insertEntry deadline item (es.filter test) else es.filter test
  replace h : es.Pairwise (·.1 ≤ ·.1) := h
  induction es with
  | nil => by_cases hitem : test (deadline, item) = true <;> simp [insertEntry, hitem]
  | cons e rest ih =>
      rw [List.pairwise_cons] at h
      by_cases hle : e.1 ≤ deadline
      · -- the new entry comes somewhere behind the first
        rw [insertEntry, if_pos hle, List.filter_cons, List.filter_cons, ih h.2]
        split_ifs
        · rw [insertEntry, if_pos hle]
        · rfl
        · rfl
        · rfl
      · -- everything in the list falls due later
        have hlater : ∀ e' ∈ (e :: rest).filter test, deadline < e'.1 := by
          intro e' he'
          rcases List.mem_cons.1 (List.mem_of_mem_filter he') with rfl | hrest
          · exact Capped.not_le.1 hle
          · exact Capped.lt_of_lt_of_le (Capped.not_le.1 hle) (h.1 e' hrest)
        rw [insertEntry, if_neg hle, List.filter_cons, insertEntry_of_lt hlater]

end Agenda

/-! ## Layer queues -/

namespace LayerQueue

variable {q q' : LayerQueue}

/-- At its own elevation stand the tasks of the lowest layer, at any other those of the layers
    behind it. -/
theorem Ordered.tasksAt_of_cons {layer : Layer} {rest : List Layer} (h : q.Ordered)
    (hq : q.layers = layer :: rest) :
    tasksAt layer.elevation q.tasks = layer.tasks ∧
      tasksAt layer.elevation (⟨rest⟩ : LayerQueue).tasks = [] ∧
      ∀ y ≠ layer.elevation, tasksAt y q.tasks = tasksAt y (⟨rest⟩ : LayerQueue).tasks := by
  obtain ⟨-, -, hlevel, habove, htasks⟩ := h.of_cons hq
  have hrest : tasksAt layer.elevation (⟨rest⟩ : LayerQueue).tasks = [] :=
    tasksAt_eq_nil fun t ht => (Coord.ne_of_lt (habove t ht)).symm
  refine ⟨by rw [htasks, tasksAt_append, tasksAt_of_forall hlevel, hrest, List.append_nil], hrest,
    fun y hy => ?_⟩
  rw [htasks, tasksAt_append, tasksAt_eq_nil fun t ht heq => hy (heq.symm.trans (hlevel t ht)),
    List.nil_append]

/-- The lowest layer stands no higher than any layer of a queue that has the same tasks at each
    elevation. -/
theorem Ordered.elevation_le {layer layer' : Layer} {rest rest' : List Layer} (h : q.Ordered)
    (h' : q'.Ordered) (hq : q.layers = layer :: rest) (hq' : q'.layers = layer' :: rest')
    (hperm : ∀ y, (tasksAt y q'.tasks).Perm (tasksAt y q.tasks)) :
    layer.elevation ≤ layer'.elevation := by
  obtain ⟨-, hne, hlevel, -⟩ := h'.of_cons hq'
  obtain ⟨t, ht⟩ := List.exists_mem_of_ne_nil _ hne
  have hmem : t ∈ tasksAt layer'.elevation q.tasks :=
    (hperm _).mem_iff.1 ((h'.tasksAt_of_cons hq').1 ▸ ht)
  obtain ⟨hfound, hy⟩ := mem_tasksAt.1 hmem
  rw [← hy]
  unfold Ordered at h
  rw [tasks, hq] at hfound
  exact Layer.Stacked.head_le (hq ▸ h) t hfound

/-- Ordered queues that are the same for each damage at each elevation are both empty, or have
    lowest layers at the same elevation that are the same for each damage, as are the layers behind
    them at each elevation. -/
theorem Ordered.cases_of_sameFor (h : q.Ordered) (h' : q'.Ordered)
    (hsame : ∀ y, SameFor Task.damage (tasksAt y q.tasks) (tasksAt y q'.tasks)) :
    (q.layers = [] ∧ q'.layers = []) ∨
    ∃ layer rest layer' rest', q.layers = layer :: rest ∧ q'.layers = layer' :: rest' ∧
      layer'.elevation = layer.elevation ∧ SameFor Task.damage layer.tasks layer'.tasks ∧
      ∀ y, SameFor Task.damage (tasksAt y (⟨rest⟩ : LayerQueue).tasks)
        (tasksAt y (⟨rest'⟩ : LayerQueue).tasks) := by
  have hnone : ∀ {p p' : LayerQueue}, p.layers = [] → p'.Ordered →
      (∀ y, (tasksAt y p'.tasks).Perm (tasksAt y p.tasks)) → p'.layers = [] := by
    intro p p' hp hp' hperm
    cases hq' : p'.layers with
    | nil => rfl
    | cons layer' rest' =>
        -- a layer would hold a task that the empty queue does not have
        have hnil : tasksAt layer'.elevation p.tasks = [] := by rw [tasks, hp]; rfl
        have hempty := (hnil ▸ hperm layer'.elevation).eq_nil
        rw [(hp'.tasksAt_of_cons hq').1] at hempty
        exact absurd hempty (hp'.of_cons hq').2.1
  have hperm := fun y => (hsame y).perm
  cases hq : q.layers with
  | nil => exact Or.inl ⟨rfl, hnone hq h' hperm⟩
  | cons layer rest =>
      cases hq' : q'.layers with
      | nil => exact absurd (hnone hq' h fun y => (hperm y).symm) (by simp [hq])
      | cons layer' rest' =>
          have helevation : layer'.elevation = layer.elevation :=
            Coord.le_antisymm (h'.elevation_le h hq' hq fun y => (hperm y).symm)
              (h.elevation_le h' hq hq' hperm)
          obtain ⟨hown, hrest, hother⟩ := h.tasksAt_of_cons hq
          obtain ⟨hown', hrest', hother'⟩ := h'.tasksAt_of_cons hq'
          refine Or.inr ⟨layer, rest, layer', rest', rfl, rfl, helevation, ?_, fun y => ?_⟩
          · rw [← hown, ← hown', helevation]
            exact hsame layer.elevation
          · by_cases hy : y = layer.elevation
            · rw [hy, hrest, ← helevation, hrest']
              exact SameFor.refl []
            · rw [← hother y hy, ← hother' y (helevation ▸ hy)]
              exact hsame y

end LayerQueue

end Mend
