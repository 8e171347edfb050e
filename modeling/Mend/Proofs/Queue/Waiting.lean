import Mathlib.Data.List.Nodup
import Mathlib.Data.List.Perm.Basic
import Mend.Queue.Agenda
import Mend.Queue.Drain

set_option autoImplicit false

/-! # Which tasks wait, in the layers and on an agenda

Both queues keep their contents sorted, so an operation moves tasks around besides adding or
taking some. What the tasks are is stated up to order: `LayerQueue.merge` adds exactly the tasks
of the merged layer, `Drain.poll` takes exactly those of the layer it returns, and an agenda
gains one item by `Agenda.schedule` and is split in two by `due` and `later`.

A layer queue is *well filled* if no layer in it is empty. Merging and polling keep that, so a
queue without tasks is a queue without layers. -/

namespace Mend

/-! ## Layers -/

/-- Putting a layer into a list adds its tasks and nothing else. -/
theorem Layer.tasks_insertInto (layer : Layer) (ls : List Layer) :
    ((layer.insertInto ls).flatMap Layer.tasks).Perm (ls.flatMap Layer.tasks ++ layer.tasks) := by
  induction ls with
  | nil => simp [insertInto]
  | cons l rest ih =>
      unfold insertInto
      split_ifs
      · simp only [List.flatMap_cons]
        exact List.perm_append_comm
      · simp only [List.flatMap_cons, List.append_assoc]
        exact ih.append_left l.tasks
      · simp only [List.flatMap_cons, List.append_assoc]
        exact List.perm_append_comm.append_left l.tasks

/-- A list of layers none of which is empty stays one when a layer with tasks is put in. -/
theorem Layer.insertInto_ne_nil {layer : Layer} {ls : List Layer} (hlayer : layer.tasks ≠ [])
    (hls : ∀ l ∈ ls, l.tasks ≠ []) : ∀ l ∈ layer.insertInto ls, l.tasks ≠ [] := by
  induction ls with
  | nil =>
      intro l hl
      rw [insertInto, List.mem_singleton] at hl
      exact hl ▸ hlayer
  | cons l rest ih =>
      have hrest : ∀ l' ∈ rest, l'.tasks ≠ [] := fun l' h => hls l' (List.mem_cons_of_mem _ h)
      have hl : l.tasks ≠ [] := hls l List.mem_cons_self
      unfold insertInto
      split_ifs
      · exact List.forall_mem_cons.2 ⟨hlayer, hls⟩
      · exact List.forall_mem_cons.2 ⟨hl, ih hrest⟩
      · exact List.forall_mem_cons.2 ⟨fun h => hl (List.append_eq_nil_iff.1 h).1, hrest⟩

namespace LayerQueue

/-- No layer of the queue is empty. -/
def WellFilled (q : LayerQueue) : Prop := ∀ l ∈ q.layers, l.tasks ≠ []

theorem wellFilled_empty : empty.WellFilled := fun _ h => absurd h List.not_mem_nil

/-- Merging a layer adds its tasks and nothing else. -/
theorem tasks_merge (q : LayerQueue) (layer : Layer) :
    (q.merge layer).tasks.Perm (q.tasks ++ layer.tasks) := by
  unfold merge
  split_ifs with h
  · rw [List.isEmpty_iff.1 h, List.append_nil]
  · exact layer.tasks_insertInto q.layers

theorem WellFilled.merge {q : LayerQueue} (h : q.WellFilled) (layer : Layer) :
    (q.merge layer).WellFilled := by
  unfold LayerQueue.merge
  split_ifs with hempty
  · exact h
  · exact Layer.insertInto_ne_nil (fun e => hempty (List.isEmpty_iff.2 e)) h

/-- Merging several layers adds their tasks and nothing else. -/
theorem tasks_mergeAll (q : LayerQueue) (ls : List Layer) :
    (ls.foldl LayerQueue.merge q).tasks.Perm (q.tasks ++ ls.flatMap Layer.tasks) := by
  induction ls generalizing q with
  | nil => simp
  | cons l rest ih =>
      rw [List.foldl_cons, List.flatMap_cons, ← List.append_assoc]
      exact (ih (q.merge l)).trans ((q.tasks_merge l).append_right _)

theorem WellFilled.mergeAll {q : LayerQueue} (h : q.WellFilled) (ls : List Layer) :
    (ls.foldl LayerQueue.merge q).WellFilled := by
  induction ls generalizing q with
  | nil => exact h
  | cons l rest ih => exact ih (h.merge l)

/-- A well filled queue without tasks has no layers. -/
theorem WellFilled.isEmpty_iff {q : LayerQueue} (h : q.WellFilled) :
    q.isEmpty = true ↔ q.tasks = [] := by
  rw [isEmpty, List.isEmpty_iff, tasks, List.flatMap_eq_nil_iff]
  constructor
  · intro hnil l hl
    rw [hnil] at hl
    exact absurd hl List.not_mem_nil
  · intro hall
    exact List.eq_nil_iff_forall_not_mem.2 fun l hl => h l hl (hall l hl)

end LayerQueue

/-! ## Polling -/

/-- Polling takes the tasks of the layer it returns out of the queue, and nothing else. -/
theorem Drain.tasks_poll (d : Drain) (now : Tick) (q : LayerQueue) :
    q.tasks = ((d.poll now q).1.elim [] Layer.tasks) ++ (d.poll now q).2.2.tasks := by
  unfold poll
  split
  · rfl
  · split_ifs
    · rfl
    · unfold LayerQueue.popLowest
      cases hq : q.layers with
      | nil => simp [LayerQueue.tasks, hq]
      | cons l rest => simp [LayerQueue.tasks, hq]

theorem LayerQueue.WellFilled.poll {q : LayerQueue} (h : q.WellFilled) (d : Drain) (now : Tick) :
    (d.poll now q).2.2.WellFilled := by
  unfold Drain.poll
  split
  · exact h
  · split_ifs
    · exact h
    · unfold LayerQueue.popLowest
      cases hq : q.layers with
      | nil => exact h
      | cons l rest => exact fun l' hl' => h l' (hq ▸ List.mem_cons_of_mem l hl')

/-! ## Agendas -/

namespace Agenda

variable {α : Type}

/-- The items that wait, in the order of their deadlines. -/
def items (a : Agenda α) : List α := a.entries.map Prod.snd

@[simp] theorem items_empty : (empty : Agenda α).items = [] := rfl

@[simp] theorem length_items (a : Agenda α) : a.items.length = a.size := List.length_map _

theorem isEmpty_iff {a : Agenda α} : a.isEmpty = true ↔ a.items = [] := by
  rw [isEmpty, List.isEmpty_iff, items, List.map_eq_nil_iff]

theorem insertEntry_perm (deadline : Tick) (item : α) (es : List (Tick × α)) :
    (insertEntry deadline item es).Perm (es ++ [(deadline, item)]) := by
  induction es with
  | nil => exact List.Perm.refl _
  | cons e rest ih =>
      unfold insertEntry
      split_ifs
      · exact ih.cons e
      · exact (List.perm_append_singleton (deadline, item) (e :: rest)).symm

/-- Putting down an item adds it and nothing else. -/
theorem items_schedule (a : Agenda α) (deadline : Tick) (item : α) :
    (a.schedule deadline item).items.Perm (a.items ++ [item]) := by
  have h := (insertEntry_perm deadline item a.entries).map Prod.snd
  rwa [List.map_append] at h

/-- An agenda is what is due, followed by what is not. -/
theorem due_append_later (a : Agenda α) (now : Tick) :
    a.due now ++ (a.later now).items = a.items := by
  rw [due, later, items, items, ← List.map_append, List.takeWhile_append_dropWhile]

end Agenda

end Mend
