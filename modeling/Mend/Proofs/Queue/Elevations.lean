import Mend.Intake.Sift
import Mend.Proofs.Queue.StableOrder
import Mend.Proofs.Queue.Waiting

set_option autoImplicit false

/-! # Which tasks wait at which elevation, and in which order

A layer queue is *ordered* if its layers ascend strictly, none is empty, and each holds tasks of
its own elevation only. Every operation keeps that, and on an ordered queue each is described by
what it does to the tasks of one elevation: merging appends to them (`LayerQueue.tasksAt_merge`),
and taking out the lowest layer takes all tasks of the least elevation and leaves the others as
they are (`LayerQueue.Ordered.of_cons`). Tasks of one elevation therefore stay in the order in
which they were merged. That a layer joins the one at its elevation and leaves all others alone does
not depend on where its tasks stand (`Layer.sameFor_insertInto`). -/

namespace Mend

/-- The tasks that stand at an elevation, in their order. -/
def tasksAt (y : Coord) (ts : List Task) : List Task := ts.filter (·.pos.y = y)

section TasksAt

variable {y : Coord} {ts us : List Task}

@[simp] theorem tasksAt_nil : tasksAt y [] = [] := rfl

@[simp] theorem tasksAt_append : tasksAt y (ts ++ us) = tasksAt y ts ++ tasksAt y us := by
  simp [tasksAt]

@[simp] theorem mem_tasksAt {t : Task} : t ∈ tasksAt y ts ↔ t ∈ ts ∧ t.pos.y = y := by
  simp [tasksAt]

theorem tasksAt_of_forall (h : ∀ t ∈ ts, t.pos.y = y) : tasksAt y ts = ts := by
  simpa [tasksAt, List.filter_eq_self] using h

theorem tasksAt_eq_nil (h : ∀ t ∈ ts, t.pos.y ≠ y) : tasksAt y ts = [] := by
  simpa [tasksAt, List.filter_eq_nil_iff] using h

end TasksAt

/-! ## Lists of layers -/

theorem Layer.elevation_of_mem_insertInto {l layer : Layer} {ls : List Layer}
    (h : l ∈ layer.insertInto ls) :
    l.elevation = layer.elevation ∨ ∃ l' ∈ ls, l.elevation = l'.elevation := by
  induction ls with
  | nil =>
      rw [insertInto, List.mem_singleton] at h
      exact Or.inl (congrArg Layer.elevation h)
  | cons l' rest ih =>
      unfold insertInto at h
      split_ifs at h <;> rcases List.mem_cons.1 h with rfl | h
      · exact Or.inl rfl
      · exact Or.inr ⟨l, h, rfl⟩
      · exact Or.inr ⟨l, List.mem_cons_self, rfl⟩
      · rcases ih h with heq | ⟨l'', hl'', heq⟩
        · exact Or.inl heq
        · exact Or.inr ⟨l'', List.mem_cons_of_mem _ hl'', heq⟩
      · exact Or.inr ⟨l', List.mem_cons_self, rfl⟩
      · exact Or.inr ⟨l, List.mem_cons_of_mem _ h, rfl⟩

/-- Strictly ascending layers stay so when a layer is put in. -/
theorem Layer.ascending_insertInto (layer : Layer) {ls : List Layer}
    (h : ls.Pairwise (·.elevation < ·.elevation)) :
    (layer.insertInto ls).Pairwise (·.elevation < ·.elevation) := by
  induction ls with
  | nil => exact List.pairwise_singleton _ _
  | cons l rest ih =>
      obtain ⟨hfirst, hrest⟩ := List.pairwise_cons.1 h
      unfold insertInto
      split_ifs with hlt hgt
      · -- the new layer comes first, below every layer of the list
        refine List.pairwise_cons.2 ⟨fun l' hl' => ?_, h⟩
        rcases List.mem_cons.1 hl' with rfl | hl'
        · exact hlt
        · exact Coord.lt_trans hlt (hfirst l' hl')
      · -- it comes somewhere behind the first
        refine List.pairwise_cons.2 ⟨fun l' hl' => ?_, ih hrest⟩
        rcases elevation_of_mem_insertInto hl' with heq | ⟨l'', hl'', heq⟩ <;> rw [heq]
        · exact hgt
        · exact hfirst l'' hl''
      · exact List.pairwise_cons.2 ⟨hfirst, hrest⟩

namespace Layer

variable {l layer : Layer} {ls rest : List Layer}

/-- The tasks of a layer, each with the elevation of the layer. -/
def entries (l : Layer) : List (Coord × Task) := l.tasks.map fun t => (l.elevation, t)

theorem fst_of_mem_entries {e : Coord × Task} (h : e ∈ l.entries) : e.1 = l.elevation := by
  obtain ⟨t, -, rfl⟩ := List.mem_map.1 h
  rfl

/-- In ascending layers the entries behind the first layer have higher elevations. -/
theorem lt_fst_of_ascending (h : (l :: rest).Pairwise (·.elevation < ·.elevation)) :
    ∀ e ∈ rest.flatMap entries, l.elevation < e.1 := by
  intro e he
  obtain ⟨l', hl', he⟩ := List.mem_flatMap.1 he
  rw [fst_of_mem_entries he]
  exact (List.pairwise_cons.1 h).1 l' hl'

/-- A layer that is put in comes behind the tasks of its elevation, and all others stay as they
    are. -/
theorem sameFor_insertInto (layer : Layer) (h : ls.Pairwise (·.elevation < ·.elevation)) :
    SameFor Prod.fst (ls.flatMap entries ++ layer.entries)
      ((layer.insertInto ls).flatMap entries) := by
  induction ls with
  | nil => simpa [insertInto] using SameFor.refl layer.entries
  | cons l rest ih =>
      have habove := lt_fst_of_ascending h
      unfold insertInto
      split_ifs with hlt hgt
      · -- everything in the list has a higher elevation than the new entries
        refine SameFor.swap fun e he f hf => ?_
        rw [fst_of_mem_entries hf]
        rw [List.flatMap_cons, List.mem_append] at he
        rcases he with he | he
        · rw [fst_of_mem_entries he]
          exact (Coord.ne_of_lt hlt).symm
        · exact (Coord.ne_of_lt (Coord.lt_trans hlt (habove e he))).symm
      · simp only [List.flatMap_cons, List.append_assoc]
        exact (SameFor.refl _).append (ih (List.pairwise_cons.1 h).2)
      · -- the new entries have the elevation of the first layer, and come before all others
        have heq : layer.elevation = l.elevation :=
          Coord.le_antisymm (Coord.not_lt.1 hgt) (Coord.not_lt.1 hlt)
        have hjoined : entries { l with tasks := l.tasks ++ layer.tasks }
            = l.entries ++ layer.entries := by
          simp only [entries, List.map_append, heq]
        simp only [List.flatMap_cons, hjoined, List.append_assoc]
        refine (SameFor.refl _).append (SameFor.swap fun e he f hf => ?_)
        rw [fst_of_mem_entries hf, heq]
        exact (Coord.ne_of_lt (habove e he)).symm

theorem entries_of_level (h : ∀ t ∈ l.tasks, t.pos.y = l.elevation) :
    l.entries = l.tasks.map fun t => (t.pos.y, t) :=
  List.map_congr_left fun t ht => by rw [h t ht]

end Layer

/-- The layers ascend strictly, none is empty, and each holds tasks of its elevation. -/
structure Layer.Stacked (ls : List Layer) : Prop where
  ascending : ls.Pairwise (·.elevation < ·.elevation)
  level : ∀ l ∈ ls, ∀ t ∈ l.tasks, t.pos.y = l.elevation
  filled : ∀ l ∈ ls, l.tasks ≠ []

namespace Layer.Stacked

variable {l layer : Layer} {rest ls : List Layer}

theorem nil : Stacked [] := ⟨List.Pairwise.nil, by simp, by simp⟩

theorem tail (h : Stacked (l :: rest)) : Stacked rest where
  ascending := (List.pairwise_cons.1 h.ascending).2
  level l' hl' := h.level l' (List.mem_cons_of_mem _ hl')
  filled l' hl' := h.filled l' (List.mem_cons_of_mem _ hl')

theorem level_head (h : Stacked (l :: rest)) : ∀ t ∈ l.tasks, t.pos.y = l.elevation :=
  h.level l List.mem_cons_self

/-- Every task behind the first layer stands above it. -/
theorem above_head (h : Stacked (l :: rest)) :
    ∀ t ∈ rest.flatMap Layer.tasks, l.elevation < t.pos.y := by
  intro t ht
  obtain ⟨l', hl', ht'⟩ := List.mem_flatMap.1 ht
  rw [h.tail.level l' hl' t ht']
  exact (List.pairwise_cons.1 h.ascending).1 l' hl'

/-- Every task in a list of layers stands at the elevation of the first or above. -/
theorem head_le (h : Stacked (l :: rest)) :
    ∀ t ∈ (l :: rest).flatMap Layer.tasks, l.elevation ≤ t.pos.y := by
  intro t ht
  rw [List.flatMap_cons, List.mem_append] at ht
  rcases ht with ht | ht
  · rw [h.level_head t ht]
    exact Coord.le_refl _
  · exact Coord.le_of_lt (h.above_head t ht)

theorem flatMap_entries (h : Stacked ls) :
    ls.flatMap entries = (ls.flatMap Layer.tasks).map fun t => (t.pos.y, t) := by
  rw [List.map_flatMap]
  exact List.flatMap_congr fun l hl => entries_of_level (h.level l hl)

theorem insertInto (h : Stacked ls) (hlevel : ∀ t ∈ layer.tasks, t.pos.y = layer.elevation)
    (hne : layer.tasks ≠ []) : Stacked (layer.insertInto ls) where
  ascending := ascending_insertInto layer h.ascending
  filled := insertInto_ne_nil hne h.filled
  level := by
    induction ls with
    | nil => simpa [Layer.insertInto] using hlevel
    | cons l rest ih =>
        unfold Layer.insertInto
        split_ifs with hlt hgt
        · exact List.forall_mem_cons.2 ⟨hlevel, h.level⟩
        · exact List.forall_mem_cons.2 ⟨h.level_head, ih h.tail⟩
        · -- the layer joins the first, whose elevation it has
          have heq : layer.elevation = l.elevation :=
            Coord.le_antisymm (Coord.not_lt.1 hgt) (Coord.not_lt.1 hlt)
          refine List.forall_mem_cons.2 ⟨fun t ht => ?_, h.tail.level⟩
          rcases List.mem_append.1 ht with ht | ht
          · exact h.level_head t ht
          · exact (hlevel t ht).trans heq

/-- The tasks of a layer that is put in come behind those of its elevation, and all others stay
    as they are. -/
theorem tasksAt_insertInto (h : Stacked ls)
    (hlevel : ∀ t ∈ layer.tasks, t.pos.y = layer.elevation) (hne : layer.tasks ≠ []) (y : Coord) :
    tasksAt y ((layer.insertInto ls).flatMap Layer.tasks)
      = tasksAt y (ls.flatMap Layer.tasks) ++ tasksAt y layer.tasks := by
  have hsame := sameFor_insertInto layer h.ascending y
  have hone : layer.entries = layer.tasks.map fun t => (t.pos.y, t) := entries_of_level hlevel
  rw [h.flatMap_entries, (h.insertInto hlevel hne).flatMap_entries, hone, ← List.map_append,
    List.filter_map, List.filter_map] at hsame
  rw [← tasksAt_append]
  exact List.map_injective_iff.2 (fun t u htu => congrArg Prod.snd htu) hsame

end Layer.Stacked

/-! ## Layer queues -/

namespace LayerQueue

/-- The layers of the queue ascend strictly, none is empty, and each holds tasks of its
    elevation. -/
def Ordered (q : LayerQueue) : Prop := Layer.Stacked q.layers

theorem ordered_empty : empty.Ordered := Layer.Stacked.nil

variable {q : LayerQueue} {layer : Layer} {ls : List Layer}

theorem Ordered.merge (h : q.Ordered) (hlevel : ∀ t ∈ layer.tasks, t.pos.y = layer.elevation) :
    (q.merge layer).Ordered := by
  unfold LayerQueue.merge
  split_ifs with hempty
  · exact h
  · exact h.insertInto hlevel fun hnil => hempty (List.isEmpty_iff.2 hnil)

theorem tasksAt_merge (h : q.Ordered) (hlevel : ∀ t ∈ layer.tasks, t.pos.y = layer.elevation)
    (y : Coord) :
    tasksAt y (q.merge layer).tasks = tasksAt y q.tasks ++ tasksAt y layer.tasks := by
  unfold merge
  split_ifs with hempty
  · simp [List.isEmpty_iff.1 hempty]
  · exact h.tasksAt_insertInto hlevel (fun hnil => hempty (List.isEmpty_iff.2 hnil)) y

/-- Merging several layers appends, at each elevation, the tasks that they hold there. -/
theorem Ordered.mergeAll (h : q.Ordered)
    (hlevel : ∀ l ∈ ls, ∀ t ∈ l.tasks, t.pos.y = l.elevation) :
    (ls.foldl LayerQueue.merge q).Ordered ∧ ∀ y,
      tasksAt y (ls.foldl LayerQueue.merge q).tasks
        = tasksAt y q.tasks ++ tasksAt y (ls.flatMap Layer.tasks) := by
  induction ls generalizing q with
  | nil => exact ⟨h, by simp⟩
  | cons l rest ih =>
      rw [List.forall_mem_cons] at hlevel
      obtain ⟨hordered, htasks⟩ := ih (h.merge hlevel.1) hlevel.2
      refine ⟨hordered, fun y => ?_⟩
      rw [List.foldl_cons, htasks, tasksAt_merge h hlevel.1, List.flatMap_cons, tasksAt_append,
        List.append_assoc]

/-- The lowest layer of an ordered queue holds the tasks of the least elevation, and the other
    layers are an ordered queue of the tasks above it. -/
theorem Ordered.of_cons {rest : List Layer} (h : q.Ordered) (hq : q.layers = layer :: rest) :
    (⟨rest⟩ : LayerQueue).Ordered ∧ layer.tasks ≠ [] ∧
      (∀ t ∈ layer.tasks, t.pos.y = layer.elevation) ∧
      (∀ t ∈ (⟨rest⟩ : LayerQueue).tasks, layer.elevation < t.pos.y) ∧
      q.tasks = layer.tasks ++ (⟨rest⟩ : LayerQueue).tasks := by
  unfold Ordered at h
  rw [hq] at h
  refine ⟨h.tail, h.filled layer List.mem_cons_self, h.level_head, h.above_head, ?_⟩
  rw [tasks, hq]
  rfl

end LayerQueue

/-! ## The layers that sifted cells are spread over -/

/-- Spreading cells over layers one by one appends, at each elevation, their tasks in order. -/
theorem Layer.Stacked.foldl_insertInto {α : Type} {elevation : α → Coord} {task : α → Task}
    (htask : ∀ c, (task c).pos.y = elevation c) (cells : List α) {ls : List Layer}
    (h : Layer.Stacked ls) :
    let spread := cells.foldl (fun ls c => Layer.insertInto ⟨elevation c, [task c]⟩ ls) ls
    Layer.Stacked spread ∧ ∀ y, tasksAt y (spread.flatMap Layer.tasks)
      = tasksAt y (ls.flatMap Layer.tasks) ++ tasksAt y (cells.map task) := by
  induction cells generalizing ls with
  | nil => exact ⟨h, by simp⟩
  | cons c rest ih =>
      have hlevel : ∀ t ∈ [task c], t.pos.y = elevation c := by simpa using htask c
      have hone : Stacked (Layer.insertInto ⟨elevation c, [task c]⟩ ls) :=
        h.insertInto hlevel (List.cons_ne_nil _ _)
      obtain ⟨hstacked, htasks⟩ := ih hone
      refine ⟨hstacked, fun y => ?_⟩
      rw [List.foldl_cons, htasks, h.tasksAt_insertInto hlevel (List.cons_ne_nil _ _),
        List.map_cons, List.append_assoc, ← tasksAt_append, List.singleton_append]

/-- The layers of sifted cells are stacked, and hold at each elevation the tasks of the cells
    there, in the order of the cells. -/
theorem layersOf_stacked {id : DamageId} {w : WorldName} {cells : List LostCell} {base : Coord}
    (h : lowestElevation? cells = some base) :
    Layer.Stacked (layersOf id w cells).1 ∧ ∀ y,
      tasksAt y ((layersOf id w cells).1.flatMap Layer.tasks)
        = tasksAt y (cells.map (·.task id w base)) := by
  simp only [layersOf, h]
  exact @Layer.Stacked.foldl_insertInto LostCell (·.pos.y) (·.task id w base) (fun _ => rfl) cells
    [] Layer.Stacked.nil

end Mend
