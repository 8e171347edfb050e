import Mathlib.Data.List.Induction
import Mathlib.Data.List.Nodup
import Mend.Proofs.Atlas.Contents

set_option autoImplicit false

/-! # What a blast takes and what it leaves

A blast takes cells of a world one after the other. Where a position is visited twice, as happens
at the ends of the world, the second visit finds nothing, so the cells taken stand at different
positions, and each holds what stood there before the blast. Fire is set only to positions that
were just emptied (`World.explode_spec`). -/

namespace Mend

namespace World

variable {vacant : List String} {w : World}

/-! ## Carving -/

/-- The cells `lost` were taken from the world `w`, which left `w'`. -/
structure Carved (vacant : List String) (w : World) (lost : List LostCell) (w' : World) :
    Prop where
  distinct : (lost.map LostCell.pos).Nodup
  /-- What was taken is what stood there, and did not count as vacant. -/
  taken : ∀ c ∈ lost, w.cells[c.pos]? = some c.content ∧
    vacant.contains c.content.material = false ∧ c.provenance = w.provenanceAt c.pos
  gone : ∀ c ∈ lost, w'.cells[c.pos]? = none
  other : ∀ pos, pos ∉ lost.map LostCell.pos → w'.cells[pos]? = w.cells[pos]?
  placed : w'.placed = w.placed
  unloaded : w'.unloaded = w.unloaded

/-- Visiting a position takes nothing, or takes what stands there. -/
theorem carveCell_cases (vacant : List String) (w : World) (pos : Pos) :
    w.carveCell vacant pos = (none, w) ∨
    ∃ content, w.cells[pos]? = some content ∧ vacant.contains content.material = false ∧
      w.carveCell vacant pos = (some ⟨pos, content, w.provenanceAt pos⟩,
        { w with cells := w.cells.erase pos }) := by
  unfold carveCell
  cases h : w.cells[pos]? with
  | none => exact Or.inl rfl
  | some content =>
      by_cases hvacant : vacant.contains content.material = true
      · exact Or.inl (if_pos hvacant)
      · exact Or.inr ⟨content, rfl, Bool.eq_false_iff.2 hvacant, if_neg hvacant⟩

/-- Carving one more position at the end. -/
theorem carve_concat (vacant : List String) (w : World) (positions : List Pos) (pos : Pos) :
    w.carve vacant (positions ++ [pos]) =
      match (w.carve vacant positions).2.carveCell vacant pos with
      | (some c, w') => ((w.carve vacant positions).1 ++ [c], w')
      | (none, w') => ((w.carve vacant positions).1, w') := by
  simp only [carve, List.foldl_append, List.foldl_cons, List.foldl_nil]
  split <;> simp_all

theorem Carved.concat {lost : List LostCell} {w' : World} (h : Carved vacant w lost w')
    {pos : Pos} {content : Content} (hcell : w'.cells[pos]? = some content)
    (hvacant : vacant.contains content.material = false) :
    Carved vacant w (lost ++ [⟨pos, content, w'.provenanceAt pos⟩])
      { w' with cells := w'.cells.erase pos } := by
  -- a position that was emptied before holds nothing now
  have hnew : pos ∉ lost.map LostCell.pos := by
    intro hmem
    obtain ⟨c, hc, rfl⟩ := List.mem_map.1 hmem
    rw [h.gone c hc] at hcell
    cases hcell
  refine ⟨?_, fun c hc => ?_, fun c hc => ?_, fun p hp => ?_, h.placed, h.unloaded⟩
  · rw [List.map_append]
    refine List.Nodup.append h.distinct (List.nodup_singleton _) fun p hp hp' => ?_
    cases List.mem_singleton.1 hp'
    exact hnew hp
  · rcases List.mem_append.1 hc with hc | hc
    · exact h.taken c hc
    · cases List.mem_singleton.1 hc
      refine ⟨h.other pos hnew ▸ hcell, hvacant, ?_⟩
      rw [provenanceAt, provenanceAt, h.placed]
  · rw [Std.ExtTreeMap.getElem?_erase]
    rcases List.mem_append.1 hc with hc | hc
    · rw [h.gone c hc, ite_self]
    · cases List.mem_singleton.1 hc
      simp
  · rw [List.map_append, List.mem_append, not_or] at hp
    have hne : pos ≠ p := fun e => hp.2 (List.mem_singleton.2 e.symm)
    rw [Std.ExtTreeMap.getElem?_erase, ← h.other p hp.1]
    simp [hne]

/-- Carving takes cells at different positions, each as it stood. -/
theorem carved_carve (vacant : List String) (w : World) (positions : List Pos) :
    Carved vacant w (w.carve vacant positions).1 (w.carve vacant positions).2 := by
  induction positions using List.reverseRecOn with
  | nil =>
      exact ⟨List.nodup_nil, fun c hc => absurd hc List.not_mem_nil,
        fun c hc => absurd hc List.not_mem_nil, fun _ _ => rfl, rfl, rfl⟩
  | append_singleton positions pos ih =>
      rw [carve_concat]
      rcases carveCell_cases vacant (w.carve vacant positions).2 pos with
        heq | ⟨content, hcell, hvacant, heq⟩ <;> rw [heq]
      · exact ih
      · exact ih.concat hcell hvacant

/-! ## Setting fire -/

theorem getElem?_ignite (w : World) (positions : List Pos) (pos : Pos) :
    (w.ignite positions).cells[pos]?
      = if pos ∈ positions then some (Content.plain fireMaterial) else w.cells[pos]? := by
  unfold ignite
  induction positions using List.reverseRecOn with
  | nil => rfl
  | append_singleton positions p ih =>
      simp only [List.foldl_append, List.foldl_cons, List.foldl_nil,
        Std.ExtTreeMap.getElem?_insert, List.mem_append, List.mem_singleton]
      by_cases hp : p = pos
      · simp [hp]
      · simp only [Std.LawfulEqCmp.compare_eq_iff_eq, hp, if_false, ih, Ne.symm hp, or_false]

/-- What a blast takes and leaves: the positions of what it took are empty or on fire, and the
    others are as they were. -/
structure Exploded (vacant : List String) (incendiary : Bool) (w : World) (lost : List LostCell)
    (w' : World) : Prop where
  distinct : (lost.map LostCell.pos).Nodup
  taken : ∀ c ∈ lost, w.cells[c.pos]? = some c.content ∧
    vacant.contains c.content.material = false ∧ c.provenance = w.provenanceAt c.pos
  left : ∀ c ∈ lost, w'.cells[c.pos]? = none ∨
    incendiary = true ∧ w'.cells[c.pos]? = some (Content.plain fireMaterial)
  other : ∀ pos, pos ∉ lost.map LostCell.pos → w'.cells[pos]? = w.cells[pos]?
  placed : w'.placed = w.placed
  unloaded : w'.unloaded = w.unloaded

theorem explode_spec (vacant : List String) (w : World) (blast : Blast) :
    Exploded vacant blast.incendiary w (w.explode vacant blast).1 (w.explode vacant blast).2 := by
  have h := carved_carve vacant w (blast.origin.ball blast.radius)
  unfold explode
  generalize w.carve vacant (blast.origin.ball blast.radius) = r at h
  obtain ⟨lost, carved⟩ := r
  by_cases hfire : blast.incendiary = true
  · -- fire stands only where something was taken, so the other positions are as carving left them
    simp only [hfire, if_true]
    refine ⟨h.distinct, h.taken, fun c hc => ?_, fun pos hpos => ?_, h.placed, h.unloaded⟩
    · rw [getElem?_ignite, h.gone c hc]
      by_cases hmem : c.pos ∈ (lost.map LostCell.pos).filter (carved.isGrounded vacant)
      · exact Or.inr ⟨rfl, if_pos hmem⟩
      · exact Or.inl (if_neg hmem)
    · rw [getElem?_ignite, if_neg fun hmem => hpos (List.mem_filter.1 hmem).1]
      exact h.other pos hpos
  · simp only [hfire]
    exact ⟨h.distinct, h.taken, fun c hc => Or.inl (h.gone c hc), h.other, h.placed, h.unloaded⟩

end World

/-- A blast that goes off does so in one of the worlds, and reports what it took. -/
theorem Atlas.explode_eq_ok {a after : Atlas} {name : WorldName} {blast : Blast} {d : Damage}
    (h : a.explode name blast = (.ok d, after)) :
    ∃ w lost w', a.world? name = some w ∧
      World.Exploded a.vacant blast.incendiary w lost w' ∧
      d = { world := name, origin := blast.origin, intensity := blast.intensity, cells := lost } ∧
      after = { a with worlds := a.worlds.insert name w' } := by
  unfold Atlas.explode modifyWorld at h
  cases hw : a.world? name with
  | none =>
      rw [hw] at h
      cases h
  | some w =>
      rw [hw] at h
      cases h
      exact ⟨w, _, _, rfl, World.explode_spec a.vacant w blast, rfl, rfl⟩

end Mend
