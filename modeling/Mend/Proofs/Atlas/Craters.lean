import Mend.Proofs.Atlas.Carving
import Mend.Proofs.Geometry.Balls

set_option autoImplicit false

/-! # Exactly what a blast takes

Visiting a position takes what stands there unless it counts as vacant, so after any number of
visits only what counts as vacant stands at the positions visited (`World.getElem?_carve`). Hence
a blast takes every cell of its ball that does not count as vacant and nothing else, also where the
ball lists a position more than once. Which of the emptied positions are set on fire is read off
the world before the blast and what was taken from it (`World.isGrounded_iff`). -/

namespace Mend

namespace World

variable {vacant : List String} {w w' : World} {lost : List LostCell} {pos : Pos}

/-! ## Every cell that can be taken is taken -/

theorem getElem?_carveCell (vacant : List String) (w : World) (pos p : Pos) :
    (w.carveCell vacant pos).2.cells[p]?
      = if pos = p then w.cells[p]?.filter fun c => vacant.contains c.material
        else w.cells[p]? := by
  unfold carveCell
  by_cases hp : pos = p
  · subst hp
    cases hcell : w.cells[pos]? with
    | none => simp [hcell]
    | some content =>
        by_cases hvacant : content.material ∈ vacant <;> simp [hvacant, hcell, Option.filter]
  · cases hcell : w.cells[pos]? with
    | none => simp [hp]
    | some content =>
        by_cases hvacant : content.material ∈ vacant <;>
          simp [hvacant, hp, Std.ExtTreeMap.getElem?_erase]

/-- Carving leaves at the positions it visits what counts as vacant. -/
theorem getElem?_carve (vacant : List String) (w : World) (positions : List Pos) (p : Pos) :
    (w.carve vacant positions).2.cells[p]?
      = if p ∈ positions then w.cells[p]?.filter fun c => vacant.contains c.material
        else w.cells[p]? := by
  induction positions using List.reverseRecOn with
  | nil => rfl
  | append_singleton positions pos ih =>
      have hlast : (w.carve vacant (positions ++ [pos])).2
          = ((w.carve vacant positions).2.carveCell vacant pos).2 := by
        rw [carve_concat]
        split <;> next heq => rw [heq]
      simp only [hlast, getElem?_carveCell, ih, List.mem_append, List.mem_singleton,
        eq_comm (a := p)]
      by_cases hmem : p ∈ positions <;> by_cases hp : pos = p <;>
        simp [hmem, hp, Option.filter_filter]

/-- Carving takes the cells of the positions it visits that do not count as vacant. -/
theorem mem_carve {positions : List Pos} {c : LostCell} :
    c ∈ (w.carve vacant positions).1 ↔ c.pos ∈ positions ∧ w.cells[c.pos]? = some c.content ∧
      vacant.contains c.content.material = false ∧ c.provenance = w.provenanceAt c.pos := by
  have h := carved_carve vacant w positions
  constructor
  · intro hc
    refine ⟨?_, h.taken c hc⟩
    by_contra hmem
    have hgone := h.gone c hc
    rw [getElem?_carve, if_neg hmem, (h.taken c hc).1] at hgone
    cases hgone
  · rintro ⟨hmem, hcell, hvacant, hkind⟩
    have hgone : (w.carve vacant positions).2.cells[c.pos]? = none := by
      rw [getElem?_carve, if_pos hmem, hcell]
      simpa using hvacant
    have hlisted : c.pos ∈ (w.carve vacant positions).1.map LostCell.pos := by
      by_contra hnot
      rw [h.other c.pos hnot, hcell] at hgone
      cases hgone
    -- what was taken there is what stood there, which is this cell
    obtain ⟨c', hc', hpos⟩ := List.mem_map.1 hlisted
    obtain ⟨hcell', -, hkind'⟩ := h.taken c' hc'
    rw [hpos, hcell] at hcell'
    rw [hpos] at hkind'
    have hsame : c' = c := by
      cases c'
      cases c
      rw [LostCell.mk.injEq]
      exact ⟨hpos, (Option.some.inj hcell').symm, hkind'.trans hkind.symm⟩
    exact hsame ▸ hc'

end World

/-! ## What an emptied position rests on -/

theorem Pos.below_eq {p q : Pos} (hx : q.x = p.x) (hy : q.y.val + 1 = p.y.val) (hz : q.z = p.z) :
    p.below = q := by
  have hdown : p.y.val + -1 = q.y.val := by omega
  simp only [below, offset, Pos.clamp, Int.add_zero, hdown, Coord.clamp_val, ← hx, ← hz]

/-- Below a position lies another one, except at the bottom of the world. -/
theorem Pos.below_of_ne {p : Pos} (h : p.below ≠ p) :
    p.below.x = p.x ∧ p.below.y.val + 1 = p.y.val ∧ p.below.z = p.z := by
  have hleast := p.y.least_le
  have hgreatest := p.y.le_greatest
  have hx : p.below.x = p.x := by simp [below, offset, Pos.clamp]
  have hz : p.below.z = p.z := by simp [below, offset, Pos.clamp]
  have hy : p.below.y.val = max (-2147483648) (min (p.y.val + -1) 2147483647) := rfl
  refine ⟨hx, ?_, hz⟩
  by_contra hbottom
  have hsame : p.below.y = p.y := Coord.ext (by omega)
  apply h
  calc p.below = ⟨p.below.x, p.below.y, p.below.z⟩ := rfl
    _ = p := by rw [hx, hsame, hz]

namespace World

variable {vacant : List String} {w w' : World} {lost : List LostCell} {pos : Pos}

/-- Directly below the position lies one from which nothing was taken, and what stands there does
    not count as vacant. -/
def Supports (vacant : List String) (w : World) (lost : List LostCell) (pos : Pos) : Prop :=
  ∃ q content, (q.x = pos.x ∧ q.y.val + 1 = pos.y.val ∧ q.z = pos.z) ∧
    q ∉ lost.map LostCell.pos ∧ w.cells[q]? = some content ∧
    vacant.contains content.material = false

/-- An emptied position rests on solid ground if what lay directly below it was solid and was not
    taken. -/
theorem Carved.isGrounded_iff (h : Carved vacant w lost w') (hpos : pos ∈ lost.map LostCell.pos) :
    w'.isGrounded vacant pos = true ↔ Supports vacant w lost pos := by
  have hgone : ∀ p ∈ lost.map LostCell.pos, w'.cells[p]? = none := by
    intro p hp
    obtain ⟨c, hc, rfl⟩ := List.mem_map.1 hp
    exact h.gone c hc
  unfold isGrounded
  constructor
  · intro hground
    cases hcell : w'.cells[pos.below]? with
    | none =>
        rw [hcell] at hground
        cases hground
    | some content =>
        rw [hcell] at hground
        have hother : pos.below ∉ lost.map LostCell.pos := by
          intro hmem
          rw [hgone _ hmem] at hcell
          cases hcell
        -- at the bottom of the world the position itself lies below it, which is empty
        have hne : pos.below ≠ pos := by
          intro heq
          rw [heq] at hother
          exact hother hpos
        exact ⟨pos.below, content, Pos.below_of_ne hne, hother, h.other _ hother ▸ hcell,
          by simpa using hground⟩
  · rintro ⟨q, content, ⟨hx, hy, hz⟩, hother, hcell, hvacant⟩
    rw [Pos.below_eq hx hy hz, h.other q hother, hcell]
    simpa using hvacant

/-! ## The whole blast -/

/-- What a blast takes from a world and what it leaves, exactly. -/
structure Cratered (vacant : List String) (w : World) (blast : Blast) (lost : List LostCell)
    (w' : World) : Prop where
  distinct : (lost.map LostCell.pos).Nodup
  /-- Every cell within the radius is taken that does not count as vacant. -/
  taken : ∀ c, c ∈ lost ↔ (w.cells[c.pos]? = some c.content ∧
    vacant.contains c.content.material = false ∧ c.provenance = w.provenanceAt c.pos) ∧
    c.pos.squaredDistance blast.origin ≤ (Ball.reach blast.radius : Int) ^ 2
  burning : ∀ c ∈ lost, blast.incendiary = true ∧ Supports vacant w lost c.pos →
    w'.cells[c.pos]? = some (Content.plain fireMaterial)
  empty : ∀ c ∈ lost, ¬ (blast.incendiary = true ∧ Supports vacant w lost c.pos) →
    w'.cells[c.pos]? = none
  other : ∀ pos, pos ∉ lost.map LostCell.pos → w'.cells[pos]? = w.cells[pos]?
  placed : w'.placed = w.placed
  unloaded : w'.unloaded = w.unloaded

/-- A position that a blast emptied is on fire just where the blast sets fire and the position
    rests on solid ground. -/
theorem left_explode (vacant : List String) (w : World) (blast : Blast) {c : LostCell}
    (hc : c ∈ (w.explode vacant blast).1) :
    (blast.incendiary = true ∧ Supports vacant w (w.explode vacant blast).1 c.pos →
      (w.explode vacant blast).2.cells[c.pos]? = some (Content.plain fireMaterial)) ∧
    (¬ (blast.incendiary = true ∧ Supports vacant w (w.explode vacant blast).1 c.pos) →
      (w.explode vacant blast).2.cells[c.pos]? = none) := by
  have h := carved_carve vacant w (blast.origin.ball blast.radius)
  revert hc
  unfold explode
  generalize w.carve vacant (blast.origin.ball blast.radius) = r at h
  obtain ⟨lost, carved⟩ := r
  by_cases hfire : blast.incendiary = true
  · simp only [hfire, if_true, true_and]
    intro hc
    have hpos : c.pos ∈ lost.map LostCell.pos := List.mem_map_of_mem hc
    have hlit : c.pos ∈ (lost.map LostCell.pos).filter (carved.isGrounded vacant) ↔
        Supports vacant w lost c.pos := by
      rw [List.mem_filter, h.isGrounded_iff hpos]
      exact and_iff_right hpos
    rw [getElem?_ignite, h.gone c hc]
    exact ⟨fun hground => if_pos (hlit.2 hground), fun hground => if_neg (mt hlit.1 hground)⟩
  · simp only [hfire]
    intro hc
    exact ⟨fun hnot => by simp at hnot, fun _ => h.gone c hc⟩

theorem cratered_explode (vacant : List String) (w : World) (blast : Blast) :
    Cratered vacant w blast (w.explode vacant blast).1 (w.explode vacant blast).2 := by
  have h := explode_spec vacant w blast
  have hlost : (w.explode vacant blast).1
      = (w.carve vacant (blast.origin.ball blast.radius)).1 := by
    unfold explode
    split_ifs <;> rfl
  refine ⟨h.distinct, fun c => ?_, fun c hc => (left_explode vacant w blast hc).1,
    fun c hc => (left_explode vacant w blast hc).2, h.other, h.placed, h.unloaded⟩
  rw [hlost, mem_carve, Pos.mem_ball, and_comm]

end World

/-- **A blast takes exactly the cells of its ball.** In a world that exists a blast goes off, and
    reports each cell within its radius once that does not count as vacant, as it stood and as what
    it counted as, and no other cell, wherever its origin is. The positions of these cells are left
    empty, or on fire where the blast sets fire and solid ground is left below them. No other
    position, mark or world changes. -/
theorem blast_exact {a : Atlas} {name : WorldName} {w : World} (hw : a.world? name = some w)
    (blast : Blast) : ∃ lost w' after, a.explode name blast = (.ok
        { world := name, origin := blast.origin, intensity := blast.intensity, cells := lost },
        after) ∧
      World.Cratered a.vacant w blast lost w' ∧
      after = { a with worlds := a.worlds.insert name w' } ∧
      ∀ other, after.world? other = if name = other then some w' else a.world? other := by
  refine ⟨_, _, _, ?_, World.cratered_explode a.vacant w blast, rfl, fun other => ?_⟩
  · rw [Atlas.explode, Atlas.modifyWorld, hw]
  · exact Atlas.world?_insert a name other _

/-- At the end of the world, where a ball of radius 1 lists its center twice, planks at the center
    are taken once. -/
theorem blast_exact_at_edge : ∃ w d after, let edge := Pos.clamp 2147483647 0 0
    let a := (((Atlas.empty []).withWorld "quarry").place "quarry" edge (Content.plain "planks")).2
    a.world? "quarry" = some w ∧ (edge.ball 1).count edge = 2 ∧
      a.explode "quarry" ⟨edge, 1, 3, true⟩ = (.ok d, after) ∧
      ⟨edge, Content.plain "planks", .placed⟩ ∈ d.cells ∧ (d.cells.map LostCell.pos).Nodup := by
  obtain ⟨w, hw⟩ : ∃ w, (((Atlas.empty []).withWorld "quarry").place "quarry"
    (Pos.clamp 2147483647 0 0) (Content.plain "planks")).2.world? "quarry" = some w := ⟨_, rfl⟩
  obtain ⟨lost, w', after, hexplode, hcratered, -⟩ :=
    blast_exact hw ⟨Pos.clamp 2147483647 0 0, 1, 3, true⟩
  refine ⟨w, _, after, hw, by decide, hexplode, (hcratered.taken _).2 ?_, hcratered.distinct⟩
  cases hw
  decide +kernel

end Mend
