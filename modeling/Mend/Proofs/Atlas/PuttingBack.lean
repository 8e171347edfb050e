import Mathlib.Data.Set.Card
import Mend.Proofs.Atlas.Carving

set_option autoImplicit false

/-! # What stands on a cell can be put back there

Every entry of a world is solid if the atlas was made by its operations, so the entries are just
the positions that are not air: as many as are counted (`Solid.encard_solid`), and the others are
vacant (`Solid.isVacant_of_none`). A blast takes entries, so what it takes is solid too. Restoring
does not refuse solid content for what it is, but only where the rules of the atlas stand in the way
(`Atlas.Obstructs`), and nothing that a blast took is lost for good (`kept_solid`). -/

namespace Mend

/-! ## Counting cells -/

/-- A world has as many cells as there are positions that hold something. -/
theorem World.encard_solid (w : World) : {p : Pos | w.cells[p]?.isSome}.encard = w.solidCount := by
  have hkeys : {p : Pos | w.cells[p]?.isSome} = (w.cells.keys.toFinset : Set Pos) := by
    ext p
    simp
  -- no key is listed twice, so the list is as long as the set is large
  rw [hkeys, Set.encard_coe_eq_coe_finsetCard,
    List.toFinset_card_of_nodup Std.ExtTreeMap.nodup_keys, Std.ExtTreeMap.length_keys, solidCount]

namespace Atlas

variable {a b : Atlas} {name : WorldName} {pos : Pos} {content : Content}

/-- Air is what has no entry. -/
theorem Solid.materialAt_eq_air_iff (h : a.Solid) :
    a.materialAt name pos = air ↔ a.contentAt? name pos = none := by
  unfold materialAt
  cases hcell : a.contentAt? name pos with
  | none => simp
  | some content => simp [(h.contentAt? hcell).not_air]

/-- What is counted are the positions that are not air. -/
theorem Solid.encard_solid (h : a.Solid) (name : WorldName) :
    {pos | a.materialAt name pos ≠ air}.encard = a.solidCount name := by
  rw [solidCount]
  cases hw : a.world? name with
  | none =>
      -- without the world every position reads as air
      refine Set.encard_eq_zero.2 (Set.eq_empty_iff_forall_notMem.2 fun pos hpos => hpos ?_)
      rw [h.materialAt_eq_air_iff, Atlas.contentAt?, hw]
      rfl
  | some w =>
      refine Eq.trans (congrArg Set.encard (Set.ext fun pos => ?_)) w.encard_solid
      show ¬ a.materialAt name pos = air ↔ w.cells[pos]?.isSome = true
      rw [h.materialAt_eq_air_iff, Atlas.contentAt?, hw, Option.isSome_iff_ne_none]
      rfl

/-- A position without an entry is vacant, also where there is no such world. -/
theorem Solid.isVacant_of_none (h : a.Solid) (hnone : a.contentAt? name pos = none) :
    Ground.isVacant a name pos = true := by
  show a.isVacantMaterial (a.materialAt name pos) = true
  rw [h.materialAt_eq_air_iff.2 hnone]
  exact h.air_vacant

/-! ## Putting back -/

/-- What stands in the way of putting back content that has a name: its material is rejected, there
    is no such world, or the cell is not loaded. Of several such reasons the first one counts. -/
inductive Obstructs (a : Atlas) (name : WorldName) (pos : Pos) (content : Content) :
    RestoreError → Prop where
  | rejected (hrejected : content.material ∈ a.rejected) : a.Obstructs name pos content
      (.invalidContent pos content.material "material cannot be placed")
  | missing (haccepted : content.material ∉ a.rejected) (hworld : a.world? name = none) :
      a.Obstructs name pos content (.worldUnavailable name)
  | unloaded (haccepted : content.material ∉ a.rejected) {w : World}
      (hworld : a.world? name = some w) (hloaded : w.isLoaded pos = false) :
      a.Obstructs name pos content (.unloaded name pos)

/-- Where something stands in the way, restoring is refused for that reason. -/
theorem Obstructs.restore {e : RestoreError} (h : a.Obstructs name pos content e)
    (hsolid : content.Solid) : a.restore name pos content = (.error e, a) := by
  have hnamed := hsolid.isEmpty_material
  cases h with
  | rejected hrejected => simp [Atlas.restore, hrejected]
  | missing haccepted hworld => simp [Atlas.restore, haccepted, hnamed, hworld]
  | unloaded haccepted hworld hloaded => simp [Atlas.restore, haccepted, hnamed, hworld, hloaded]

/-- Something stands in the way, or the content is put back. -/
theorem obstructs_or_restored (a : Atlas) (name : WorldName) (pos : Pos) (hsolid : content.Solid) :
    (∃ e, a.Obstructs name pos content e) ∨
    ∃ w, a.world? name = some w ∧ a.restore name pos content = (.ok (), { a with
      worlds := a.worlds.insert name { w with cells := w.cells.insert pos content } }) := by
  by_cases hrejected : content.material ∈ a.rejected
  · exact Or.inl ⟨_, .rejected hrejected⟩
  · cases hworld : a.world? name with
    | none => exact Or.inl ⟨_, .missing hrejected hworld⟩
    | some w =>
        cases hloaded : w.isLoaded pos with
        | false => exact Or.inl ⟨_, .unloaded hrejected hworld hloaded⟩
        | true => exact Or.inr ⟨w, rfl, restore_eq_ok hworld hloaded hrejected hsolid⟩

end Atlas

/-- Wherever the content is put back, it is refused just where something stands in the way, which
    leaves the atlas as it was, and stands there afterwards otherwise. -/
structure Content.Restorable (content : Content) : Prop where
  refused_iff : ∀ (a b : Atlas) (name : WorldName) (pos : Pos) (e : RestoreError),
    a.restore name pos content = (.error e, b) ↔ a.Obstructs name pos content e ∧ b = a
  stands : ∀ (a b : Atlas) (name : WorldName) (pos : Pos),
    a.restore name pos content = (.ok (), b) → b.contentAt? name pos = some content

theorem Content.Solid.restorable {content : Content} (h : content.Solid) : content.Restorable where
  refused_iff a b name pos e := by
    constructor
    · intro hrefused
      rcases a.obstructs_or_restored name pos h with ⟨e', he'⟩ | ⟨w, -, hrestored⟩
      · rw [he'.restore h] at hrefused
        cases hrefused
        exact ⟨he', rfl⟩
      · rw [hrestored] at hrefused
        cases hrefused
    · rintro ⟨hobstructs, rfl⟩
      exact hobstructs.restore h
  stands a b name pos hok := by
    rcases a.obstructs_or_restored name pos h with ⟨e, he⟩ | ⟨w, hw, hrestored⟩
    · rw [he.restore h] at hok
      cases hok
    · rw [hrestored] at hok
      cases hok
      rw [Atlas.contentAt?_insert_cell a name name w pos hw, if_pos rfl]

/-- What a blast takes from a solid atlas is solid. -/
theorem Atlas.Solid.of_explode {a after : Atlas} {name : WorldName} {blast : Blast} {d : Damage}
    (h : a.Solid) (hexplode : a.explode name blast = (.ok d, after)) {c : LostCell}
    (hc : c ∈ d.cells) : c.content.Solid := by
  obtain ⟨w, lost, w', hw, hspec, rfl, -⟩ := Atlas.explode_eq_ok hexplode
  exact h.worlds name w hw c.pos c.content (hspec.taken c hc).1

/-- **What stands on a cell is never air and never without a name.** In every atlas made by its
    operations, whether they went through or were refused, each cell that holds something holds
    solid content. So the cells counted are those that are not air, and a position that holds
    nothing is vacant. Whatever a blast takes is refused, by any atlas and at any place, only where
    its material is rejected, the world is missing or the cell is not loaded, and otherwise stands
    there again. -/
theorem kept_solid {a : Atlas} (made : a.Made) :
    (∀ name pos content, a.contentAt? name pos = some content → content.Solid) ∧
      (∀ name, {pos | a.materialAt name pos ≠ air}.encard = a.solidCount name) ∧
      (∀ name pos, a.contentAt? name pos = none → Ground.isVacant a name pos = true) ∧
      ∀ name blast d after, a.explode name blast = (.ok d, after) →
        ∀ c ∈ d.cells, c.content.Restorable := by
  have hsolid := made.solid
  refine ⟨?_, hsolid.encard_solid, ?_, ?_⟩
  · intro name pos content hcell
    exact hsolid.contentAt? hcell
  · intro name pos hnone
    exact hsolid.isVacant_of_none hnone
  · intro name blast d after hexplode c hc
    exact (hsolid.of_explode hexplode hc).restorable

/-- Stone, and fire that a blast left where oak stood on it. A write without a name was refused in
    between, and air with extra state was restored. -/
def scorched : Atlas :=
  let a := (Atlas.empty []).withWorld "quarry"
  let a := (a.fillBall "quarry" (Pos.clamp 0 0 0) 0 "stone").2
  let a := (a.place "quarry" (Pos.clamp 0 1 0) (Content.plain "oak")).2
  let a := (a.place "quarry" (Pos.clamp 0 2 0) (Content.plain "")).2
  let a := (a.restore "quarry" (Pos.clamp 0 3 0) ⟨air, (∅ : Properties).insert "axis" "y"⟩).2
  let a := (a.explode "quarry" ⟨Pos.clamp 0 1 0, 0, 1, true⟩).2
  a.reject "stone"

theorem made_scorched : scorched.Made :=
  .reject (.explode (.restore (.place (.place (.fillBall (.withWorld (.empty _) _) _ _ _ _) _ _ _)
    _ _ _) _ _ _) _ _) _

/-- Two cells of the scorched quarry hold something. A blast takes the stone and the fire; the stone
    cannot be put back, because stone is rejected, and the fire is there again. -/
theorem kept_solid_scorched : scorched.Made ∧
    (∃ content, scorched.contentAt? "quarry" (Pos.clamp 0 1 0) = some content ∧ content.Solid) ∧
    {pos | scorched.materialAt "quarry" pos ≠ air}.encard = 2 ∧
    (scorched.contentAt? "quarry" (Pos.clamp 0 3 0) = none ∧
      Ground.isVacant scorched "quarry" (Pos.clamp 0 3 0) = true) ∧
    ∃ d after stone fire,
      scorched.explode "quarry" ⟨Pos.clamp 0 1 0, 1, 1, false⟩ = (.ok d, after) ∧
      (stone ∈ d.cells ∧ stone.content = Content.plain "stone" ∧ stone.content.Restorable ∧
        after.restore "quarry" stone.pos stone.content
          = (.error (.invalidContent stone.pos "stone" "material cannot be placed"), after)) ∧
      (fire ∈ d.cells ∧ fire.content = Content.plain fireMaterial ∧ fire.content.Restorable ∧
        (after.restore "quarry" fire.pos fire.content).2.contentAt? "quarry" fire.pos
          = some fire.content) := by
  obtain ⟨hsolid, hcount, hvacant, hrestorable⟩ := kept_solid made_scorched
  have hnone : scorched.contentAt? "quarry" (Pos.clamp 0 3 0) = none := by decide +kernel
  have htwo : scorched.solidCount "quarry" = 2 := by decide +kernel
  have hstone := hrestorable "quarry" ⟨Pos.clamp 0 1 0, 1, 1, false⟩ _ _ rfl
    ⟨Pos.clamp 0 0 0, Content.plain "stone", .natural⟩ (by decide +kernel)
  have hfire := hrestorable "quarry" ⟨Pos.clamp 0 1 0, 1, 1, false⟩ _ _ rfl
    ⟨Pos.clamp 0 1 0, Content.plain fireMaterial, .placed⟩ (by decide +kernel)
  refine ⟨made_scorched, ⟨_, rfl, hsolid "quarry" (Pos.clamp 0 1 0) _ rfl⟩,
    by rw [hcount, htwo]; rfl, ⟨hnone, hvacant _ _ hnone⟩, _, _, _, _, rfl,
    ⟨by decide +kernel, rfl, hstone, ?_⟩, by decide +kernel, rfl, hfire, ?_⟩
  · exact (hstone.refused_iff _ _ _ _ _).2 ⟨.rejected (by decide +kernel), rfl⟩
  · exact hfire.stands _ _ _ _ (Prod.ext (by decide +kernel) rfl)

end Mend
