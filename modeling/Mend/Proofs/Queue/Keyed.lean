import Mend.Proofs.Queue.Merging

set_option autoImplicit false

/-! # Layers kept under their elevations

A layer queue can also be kept as a map from elevations to layers, with the number of tasks beside
it. A layer that is merged is put under its elevation or joins the one that is there, and the lowest
layer is the one under the least key. The map then holds the layers of the queue, each under its own
elevation, and the number is that of their tasks (`KeyedLayers.Mirrors`). So map and queue give the
same answers, and these are those of the list of what was merged (`refines_merged`). -/

namespace Mend

/-! ## Looking layers up -/

namespace Layer

variable {l layer : Layer} {ls rest : List Layer} {y : Coord}

/-- The layer at an elevation. -/
def at? (ls : List Layer) (y : Coord) : Option Layer := ls.find? (·.elevation = y)

theorem at?_cons : at? (l :: ls) y = if l.elevation = y then some l else at? ls y := by
  by_cases h : l.elevation = y <;> simp [at?, h]

theorem at?_eq_none (h : ∀ l ∈ ls, y < l.elevation) : at? ls y = none :=
  List.find?_eq_none.2 fun l hl => by simpa using (Coord.ne_of_lt (h l hl)).symm

/-- Where layers ascend, each is found at its elevation. -/
theorem at?_eq_some_iff (h : ls.Pairwise (·.elevation < ·.elevation)) :
    at? ls y = some l ↔ l ∈ ls ∧ l.elevation = y := by
  induction ls with
  | nil => simp [at?]
  | cons first rest ih =>
      obtain ⟨hfirst, hrest⟩ := List.pairwise_cons.1 h
      rw [at?_cons]
      split_ifs with hy
      · constructor
        · rintro ⟨⟩
          exact ⟨List.mem_cons_self, hy⟩
        · rintro ⟨hl, hl'⟩
          rcases List.mem_cons.1 hl with rfl | hl
          · rfl
          · exact absurd (hy.trans hl'.symm) (Coord.ne_of_lt (hfirst l hl))
      · rw [ih hrest, List.mem_cons]
        constructor
        · rintro ⟨hl, hl'⟩
          exact ⟨Or.inr hl, hl'⟩
        · rintro ⟨rfl | hl, hl'⟩
          · exact absurd hl' hy
          · exact ⟨hl, hl'⟩

/-- The layer, joined to the one that is there before. -/
def joinedTo (layer : Layer) : Option Layer → Layer
  | none => layer
  | some l => { l with tasks := l.tasks ++ layer.tasks }

/-- A layer that is put in joins the layer at its elevation, if there is one. -/
theorem at?_insertInto (layer : Layer) (h : ls.Pairwise (·.elevation < ·.elevation)) (y : Coord) :
    at? (layer.insertInto ls) y
      = if layer.elevation = y then some (layer.joinedTo (at? ls y)) else at? ls y := by
  induction ls with
  | nil => rw [insertInto, at?_cons]; rfl
  | cons l rest ih =>
      obtain ⟨hfirst, hrest⟩ := List.pairwise_cons.1 h
      by_cases hlt : layer.elevation < l.elevation
      · -- no layer of the list is as low as the new one
        rw [insertInto, if_pos hlt, at?_cons]
        split_ifs with hy
        · have hnone : at? (l :: rest) y = none := by
            rw [← hy]
            refine at?_eq_none (List.forall_mem_cons.2 ⟨hlt, fun l' hl' => ?_⟩)
            exact Coord.lt_trans hlt (hfirst l' hl')
          rw [hnone]
          rfl
        · rfl
      · by_cases hgt : l.elevation < layer.elevation
        · rw [insertInto, if_neg hlt, if_pos hgt, at?_cons, ih hrest, at?_cons]
          split_ifs with hl hy
          · exact absurd (hl.trans hy.symm) (Coord.ne_of_lt hgt)
          · rfl
          · rfl
          · rfl
        · have heq : layer.elevation = l.elevation :=
            Coord.le_antisymm (Coord.not_lt.1 hgt) (Coord.not_lt.1 hlt)
          rw [insertInto, if_neg hlt, if_neg hgt, at?_cons, at?_cons, heq]
          split_ifs <;> rfl

end Layer

/-! ## Maps of layers -/

/-- Layers by elevation, and the number of their tasks. -/
structure KeyedLayers where
  layers : Std.ExtTreeMap Coord Layer
  taskCount : Nat

namespace KeyedLayers

/-- The map without layers. -/
def empty : KeyedLayers := ⟨∅, 0⟩

/-- Add the tasks of a layer; a layer without tasks changes nothing. -/
def merge (m : KeyedLayers) (layer : Layer) : KeyedLayers :=
  if layer.tasks.isEmpty then m
  else ⟨m.layers.insert layer.elevation (layer.joinedTo m.layers[layer.elevation]?),
    m.taskCount + layer.tasks.length⟩

/-- Take out the layer under the least elevation. -/
def popLowest (m : KeyedLayers) : Option (Layer × KeyedLayers) :=
  match m.layers.toList with
  | [] => none
  | (y, layer) :: _ => some (layer, ⟨m.layers.erase y, m.taskCount - layer.tasks.length⟩)

/-- The map after a call. -/
def after (m : KeyedLayers) : LayerQueue.Call → KeyedLayers
  | .merge layer => m.merge layer
  | .popLowest => (m.popLowest.map Prod.snd).getD m
  | .clear => empty

/-- The map after a list of calls. -/
def ofCalls (calls : List LayerQueue.Call) : KeyedLayers := calls.foldl after empty

/-- The map holds the layers of the queue, and the number is that of their tasks. -/
structure Mirrors (m : KeyedLayers) (q : LayerQueue) : Prop where
  ascending : q.layers.Pairwise (·.elevation < ·.elevation)
  getElem? : ∀ y, m.layers[y]? = Layer.at? q.layers y
  taskCount : m.taskCount = q.taskCount

theorem mirrors_empty : empty.Mirrors LayerQueue.empty :=
  ⟨List.Pairwise.nil, fun y => by simp [empty, LayerQueue.empty, Layer.at?], rfl⟩

namespace Mirrors

variable {m : KeyedLayers} {q : LayerQueue}

/-- The map lists the layers of the queue, each under its own elevation. -/
theorem toList (h : m.Mirrors q) : m.layers.toList = q.layers.map fun l => (l.elevation, l) := by
  have hmap : m.layers.toList.Pairwise fun a b => a.1 < b.1 :=
    m.layers.ordered_keys_toList.imp Int.compare_eq_lt.1
  have hlist : (q.layers.map fun l => (l.elevation, l)).Pairwise fun a b => a.1 < b.1 :=
    List.pairwise_map.2 h.ascending
  have hnodup : ∀ {xs : List (Coord × Layer)}, (xs.Pairwise fun a b => a.1 < b.1) → xs.Nodup :=
    fun hxs => hxs.imp fun hlt heq => Coord.ne_of_lt hlt (congrArg Prod.fst heq)
  refine List.Perm.eq_of_pairwise (fun a b _ _ hab hba => ?_) hmap hlist
    ((List.perm_ext_iff_of_nodup (hnodup hmap) (hnodup hlist)).2 fun e => ?_)
  · exact absurd rfl (Coord.ne_of_lt (Coord.lt_trans hab hba))
  · obtain ⟨y, l⟩ := e
    rw [Std.ExtTreeMap.mem_toList_iff_getElem?_eq_some, h.getElem?,
      Layer.at?_eq_some_iff h.ascending]
    simp only [List.mem_map, Prod.mk.injEq]
    constructor
    · rintro ⟨hl, hy⟩
      exact ⟨l, hl, hy, rfl⟩
    · rintro ⟨l', hl', hy, rfl⟩
      exact ⟨hl', hy⟩

theorem merge (h : m.Mirrors q) (layer : Layer) : (m.merge layer).Mirrors (q.merge layer) := by
  unfold KeyedLayers.merge LayerQueue.merge
  split_ifs with hempty
  · exact h
  · refine ⟨Layer.ascending_insertInto layer h.ascending, fun y => ?_, ?_⟩
    · rw [Layer.at?_insertInto layer h.ascending, Std.ExtTreeMap.getElem?_insert]
      simp only [Std.LawfulEqCmp.compare_eq_iff_eq, h.getElem?]
      split_ifs with hy
      · rw [hy]
      · rfl
    · have hperm := (layer.tasks_insertInto q.layers).length_eq
      rw [List.length_append] at hperm
      exact (congrArg (· + layer.tasks.length) h.taskCount).trans hperm.symm

/-- Both have no layer to take out, or take out the same and mirror each other afterwards. -/
theorem popLowest (h : m.Mirrors q) :
    (m.popLowest = none ∧ q.popLowest = none) ∨
    ∃ layer m' q', m.popLowest = some (layer, m') ∧ q.popLowest = some (layer, q') ∧
      m'.Mirrors q' := by
  have hlist := h.toList
  unfold KeyedLayers.popLowest LayerQueue.popLowest
  cases hq : q.layers with
  | nil =>
      rw [hq] at hlist
      exact Or.inl ⟨by rw [hlist]; rfl, rfl⟩
  | cons layer rest =>
      rw [hq] at hlist
      refine Or.inr ⟨layer, ⟨m.layers.erase layer.elevation, m.taskCount - layer.tasks.length⟩,
        ⟨rest⟩, by rw [hlist]; rfl, rfl, ?_⟩
      have hascending := h.ascending
      rw [hq] at hascending
      obtain ⟨hfirst, hrest⟩ := List.pairwise_cons.1 hascending
      refine ⟨hrest, fun y => ?_, ?_⟩
      · rw [Std.ExtTreeMap.getElem?_erase, h.getElem?, hq, Layer.at?_cons]
        simp only [Std.LawfulEqCmp.compare_eq_iff_eq]
        split_ifs with hy
        · exact (Layer.at?_eq_none (hy ▸ hfirst)).symm
        · rfl
      · have hcount : q.taskCount = layer.tasks.length + (⟨rest⟩ : LayerQueue).taskCount := by
          simp [LayerQueue.taskCount, LayerQueue.tasks, hq]
        rw [h.taskCount, hcount]
        exact Nat.add_sub_cancel_left layer.tasks.length _

theorem after (h : m.Mirrors q) (c : LayerQueue.Call) : (m.after c).Mirrors (q.after c) := by
  cases c with
  | merge layer => exact h.merge layer
  | popLowest =>
      rcases h.popLowest with ⟨hm, hq⟩ | ⟨layer, m', q', hm, hq, h'⟩
      · simpa [KeyedLayers.after, LayerQueue.after, hm, hq] using h
      · simpa [KeyedLayers.after, LayerQueue.after, hm, hq] using h'
  | clear => exact mirrors_empty

end Mirrors

theorem mirrors_ofCalls (calls : List LayerQueue.Call) :
    (ofCalls calls).Mirrors (LayerQueue.ofCalls calls) := by
  induction calls using List.reverseRecOn with
  | nil => exact mirrors_empty
  | append_singleton calls c ih =>
      rw [ofCalls, LayerQueue.ofCalls, List.foldl_concat, List.foldl_concat]
      exact ih.after c

end KeyedLayers

/-- **A layer queue is a list of what was merged.** Whatever was merged, taken out and cleared, and
    whatever tasks the merged layers held, a layer queue answers as the list of the tasks that are
    left, each with the elevation of its layer, in the order in which they were merged. The lowest
    layer holds those with the least elevation, and is never empty. Kept as a map the queue has its
    layers under their own elevations, counts the tasks of the list, and takes out the same. -/
theorem refines_merged (calls : List LayerQueue.Call) :
    let q := LayerQueue.ofCalls calls
    let m := KeyedLayers.ofCalls calls
    q.Answers (LayerQueue.merged calls) ∧
      m.layers.toList = q.layers.map (fun l => (l.elevation, l)) ∧
      m.taskCount = (LayerQueue.merged calls).length ∧
      m.popLowest.map Prod.fst = q.popLowest.map Prod.fst := by
  have hanswers := LayerQueue.answers_of_shelved (LayerQueue.shelved_ofCalls calls)
  have hmirrors := KeyedLayers.mirrors_ofCalls calls
  refine ⟨hanswers, hmirrors.toList, hmirrors.taskCount.trans hanswers.taskCount, ?_⟩
  rcases hmirrors.popLowest with ⟨hm, hq⟩ | ⟨layer, m', q', hm, hq, -⟩
  · simp [hm, hq]
  · simp [hm, hq]

end Mend
