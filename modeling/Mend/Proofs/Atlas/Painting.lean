import Mend.Proofs.Atlas.Contents
import Mend.Proofs.Geometry.Balls

set_option autoImplicit false

/-! # Painting worlds

Content without a name is refused; any other is written, and air leaves no entry. Each write tells
what it does to the cells and to the marks that say where was built, and painting a list of
positions is one write after the other (`World.fill_spec`). It counts its writes, so a ball that
lists some position twice is counted higher than it is wide (`ball_painted`). -/

namespace Mend

/-- What a position holds once the content was written there. -/
def Content.stored (content : Content) : Option Content :=
  if content.material = air then none else some content

namespace World

/-! ## One write -/

/-- Only content without a name is refused. -/
theorem write_of_named (w : World) (pos : Pos) {content : Content} (h : content.material ≠ "") :
    ∃ before w', w.write pos content = (.ok before, w') := by
  have hempty : ¬ content.material.isEmpty = true := fun he => h (String.isEmpty_iff.1 he)
  rw [write, if_neg hempty]
  split_ifs <;> exact ⟨_, _, rfl⟩

theorem getElem?_write (w : World) (pos : Pos) {content : Content} (h : content.material ≠ "")
    (p : Pos) : (w.write pos content).2.cells[p]?
      = if pos = p then content.stored else w.cells[p]? := by
  have hempty : ¬ content.material.isEmpty = true := fun he => h (String.isEmpty_iff.1 he)
  rw [write, if_neg hempty, Content.stored]
  by_cases hair : content.material = air
  · simp [hair, Std.ExtTreeMap.getElem?_erase]
  · simp [hair, Std.ExtTreeMap.getElem?_insert]

theorem provenanceAt_congr {w w' : World} (h : w'.placed = w.placed) (pos : Pos) :
    w'.provenanceAt pos = w.provenanceAt pos := by
  rw [provenanceAt, provenanceAt, h]

/-- A write of air makes the position natural; any other write leaves its mark alone. -/
theorem provenanceAt_write (w : World) (pos : Pos) (content : Content) (p : Pos) :
    (w.write pos content).2.provenanceAt p
      = if content.material = air ∧ pos = p then .natural else w.provenanceAt p := by
  unfold write
  by_cases hempty : content.material.isEmpty = true
  · have hair : content.material ≠ air := by
      rw [String.isEmpty_iff.1 hempty]
      decide
    simp [hempty, hair]
  · rw [if_neg hempty]
    by_cases hair : content.material = air
    · by_cases hp : pos = p <;> simp [hair, hp, provenanceAt]
    · simp [hair, provenanceAt]

theorem provenanceAt_setNatural (w : World) (pos : Pos) (content : Content) (p : Pos) :
    (w.setNatural pos content).2.provenanceAt p
      = if pos = p then .natural else w.provenanceAt p := by
  rw [setNatural, provenanceAt_write]
  by_cases hp : pos = p <;> simp [hp, provenanceAt]

theorem provenanceAt_place (w : World) (pos : Pos) (content : Content) (p : Pos) :
    (w.place pos content).2.provenanceAt p
      = if pos = p then (if content.material = air then .natural else .placed)
        else w.provenanceAt p := by
  rw [place, provenanceAt_write]
  by_cases hp : pos = p <;> by_cases hair : content.material = air <;>
    simp [hp, hair, provenanceAt]

/-! ## A list of positions -/

/-- Filling makes positions natural, and only those that are filled. -/
theorem provenanceAt_fill (w : World) (content : Content) (positions : List Pos) (p : Pos) :
    (w.fill content positions).2.provenanceAt p = w.provenanceAt p ∨
      (w.fill content positions).2.provenanceAt p = .natural ∧ p ∈ positions := by
  induction positions generalizing w with
  | nil => exact Or.inl rfl
  | cons pos rest ih =>
      have hone := provenanceAt_setNatural w pos content p
      rw [fill]
      split <;> rename_i v heq <;> rw [heq] at hone
      · rcases ih v with hrest | ⟨hrest, hmem⟩
        · by_cases hp : pos = p
          · exact Or.inr ⟨by rw [hrest, hone, if_pos hp], hp ▸ List.mem_cons_self⟩
          · exact Or.inl (by rw [hrest, hone, if_neg hp])
        · exact Or.inr ⟨hrest, List.mem_cons_of_mem _ hmem⟩
      · by_cases hp : pos = p
        · exact Or.inr ⟨by rw [hone, if_pos hp], hp ▸ List.mem_cons_self⟩
        · exact Or.inl (by rw [hone, if_neg hp])

/-- What two lists of positions are given one after the other is given to both together. -/
theorem ite_mem_append {α : Type} (p : Pos) (ps qs : List Pos) (given kept : α) :
    (if p ∈ qs then given else if p ∈ ps then given else kept)
      = if p ∈ ps ++ qs then given else kept := by
  by_cases hp : p ∈ ps <;> by_cases hq : p ∈ qs <;> simp [hp, hq]

/-- The world `w'` is the world `w` with the content at each of the positions, as terrain. -/
structure Filled (w : World) (content : Content) (positions : List Pos) (w' : World) : Prop where
  cell : ∀ p, w'.cells[p]? = if p ∈ positions then content.stored else w.cells[p]?
  mark : ∀ p, w'.provenanceAt p = if p ∈ positions then .natural else w.provenanceAt p
  unloaded : w'.unloaded = w.unloaded

theorem Filled.nil (w : World) (content : Content) : w.Filled content [] w :=
  ⟨fun p => by simp, fun p => by simp, rfl⟩

theorem Filled.append {w v w' : World} {content : Content} {ps qs : List Pos}
    (h : w.Filled content ps v) (h' : v.Filled content qs w') : w.Filled content (ps ++ qs) w' where
  cell p := by rw [h'.cell, h.cell, ite_mem_append]
  mark p := by rw [h'.mark, h.mark, ite_mem_append]
  unloaded := h'.unloaded.trans h.unloaded

/-- Content that has a name is written as terrain. -/
theorem setNatural_spec (w : World) (pos : Pos) {content : Content} (h : content.material ≠ "") :
    ∃ before w', w.setNatural pos content = (.ok before, w') ∧ w.Filled content [pos] w' := by
  obtain ⟨before, w', hw⟩ := { w with placed := w.placed.erase pos }.write_of_named pos h
  refine ⟨before, w', hw, fun p => ?_, fun p => ?_, ?_⟩
  · have hcell := getElem?_write { w with placed := w.placed.erase pos } pos h p
    rw [hw] at hcell
    simpa [eq_comm] using hcell
  · have hmark := provenanceAt_setNatural w pos content p
    rw [setNatural, hw] at hmark
    simpa [eq_comm] using hmark
  · have hloaded := Atlas.unloaded_write { w with placed := w.placed.erase pos } pos content
    rwa [hw] at hloaded

/-- Content that has a name is written at all of the positions. -/
theorem fill_spec (w : World) {content : Content} (h : content.material ≠ "")
    (positions : List Pos) :
    ∃ w', w.fill content positions = (.ok (), w') ∧ w.Filled content positions w' := by
  induction positions generalizing w with
  | nil => exact ⟨w, rfl, .nil w content⟩
  | cons pos rest ih =>
      obtain ⟨before, v, hv, hone⟩ := w.setNatural_spec pos h
      obtain ⟨w', hw', hrest⟩ := ih v
      exact ⟨w', by rw [fill, hv]; exact hw', hone.append hrest⟩

end World

/-! ## Painting a ball -/

/-- **A ball is listed exactly, and counted where it is cut short more than once.** Whatever its
    center and radius, a ball lists the positions within the radius and no others, as it would with
    capped squares. It lists them in strictly ascending order, and each of them once, just where no
    displacement is cut short at an end of the world. Painting it with a named material writes at
    its positions and nowhere else, and the number of writes it returns is the number of these
    positions just there. -/
theorem ball_exact (center : Pos) (radius : Count) :
    (∀ p, p ∈ center.ball radius ↔ p.squaredDistance center ≤ (Ball.reach radius : Int) ^ 2) ∧
      center.ball radius = center.ballByArea radius ∧
      ((center.ball radius).Pairwise (fun p q => compare p q = .lt) ↔ center.Fits radius) ∧
      ((center.ball radius).Nodup ↔ center.Fits radius) ∧
      ∀ (a : Atlas) (name : WorldName) (w : World) (material : String),
        a.world? name = some w → material ≠ "" →
        ∃ n w', a.fillBall name center radius material
            = (.ok n, { a with worlds := a.worlds.insert name w' }) ∧
          w.Filled (Content.plain material) (center.ball radius) w' ∧
          n = (center.ball radius).length ∧
          (n = (center.ball radius).dedup.length ↔ center.Fits radius) := by
  refine ⟨fun p => Pos.mem_ball, Pos.ball_eq_ballByArea center radius, Pos.ball_ascending_iff,
    Pos.ball_nodup_iff, ?_⟩
  intro a name w material hw hnamed
  have hcontent : (Content.plain material).material ≠ "" := hnamed
  obtain ⟨w', hfill, hfilled⟩ := w.fill_spec hcontent (center.ball radius)
  have hmodify : (a.modifyWorld name fun w =>
      w.fill (Content.plain material) (center.ball radius))
        = (.ok (), { a with worlds := a.worlds.insert name w' }) := by
    rw [Atlas.modifyWorld, hw]
    simp only [hfill]
  refine ⟨_, w', ?_, hfilled, rfl, Pos.length_ball_eq_iff⟩
  rw [Atlas.fillBall_eq, hmodify]
  rfl

/-- At the end of the world the ball of radius 1 has six positions. It is painted with seven
    writes. -/
theorem ball_exact_at_edge : let a := (Atlas.empty []).withWorld "quarry"
    let edge := Pos.clamp 2147483647 0 0
    (a.world? "quarry" = some World.empty ∧ "stone" ≠ "") ∧
      (a.fillBall "quarry" edge 1 "stone").1 = .ok 7 ∧ (edge.ball 1).dedup.length = 6 ∧
      ¬ edge.Fits 1 := by
  obtain ⟨-, -, -, -, hpainted⟩ := ball_exact (Pos.clamp 2147483647 0 0) 1
  obtain ⟨n, w', hfill, -, hn, -⟩ :=
    hpainted ((Atlas.empty []).withWorld "quarry") "quarry" World.empty "stone" rfl (by decide)
  have hseven : ((Pos.clamp 2147483647 0 0).ball 1).length = 7 := by decide
  exact ⟨⟨rfl, by decide⟩, by rw [hfill, hn, hseven], by decide, by decide⟩

/-- Not every ball of a radius up to 2³¹ − 1 is listed in strictly ascending order. -/
theorem ball_repeats_at_edge : ¬ ∀ (center : Pos) (radius : Count), radius.val ≤ 2147483647 →
    (center.ball radius).Pairwise fun p q => compare p q = .lt := by
  intro h
  have hascending := h (Pos.clamp 2147483647 0 0) 1 (by decide)
  exact absurd hascending (by decide)

end Mend
