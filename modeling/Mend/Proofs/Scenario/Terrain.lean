import Mend.Proofs.Atlas.Painting
import Mend.Proofs.Atlas.PuttingBack
import Mend.Scenario.Basic

set_option autoImplicit false

/-! # What a scenario's terrain looks like

A patch is painted by writing its ball, as terrain or as built, and each write tells what its
position looks like afterwards: what it holds and how that came to be. Painting a list of positions
gives all of them the same look (`World.Coated`), whatever they looked like before. So after a list
of patches each position looks as the last patch that covers it makes it look, and one that no patch
covers is as it was (`Scenario.paintAll_spec`). Only a patch without a material cannot be painted.
-/

namespace Mend

/-! ## Looks -/

namespace World

/-- What a position looks like: what it holds, and how that came to be. -/
def look (w : World) (p : Pos) : Option Content × Provenance := (w.cells[p]?, w.provenanceAt p)

/-- The world `w'` looks as the world `w` does, with one look at all of the positions. -/
def Coated (w : World) (coat : Option Content × Provenance) (positions : List Pos) (w' : World) :
    Prop :=
  ∀ p, w'.look p = if p ∈ positions then coat else w.look p

theorem Coated.nil (w : World) (coat : Option Content × Provenance) : w.Coated coat [] w :=
  fun p => by simp

theorem Coated.append {w v w' : World} {coat : Option Content × Provenance} {ps qs : List Pos}
    (h : w.Coated coat ps v) (h' : v.Coated coat qs w') : w.Coated coat (ps ++ qs) w' := by
  intro p
  rw [h' p, h p, ite_mem_append]

theorem Filled.coated {w w' : World} {content : Content} {positions : List Pos}
    (h : w.Filled content positions w') : w.Coated (content.stored, .natural) positions w' := by
  intro p
  rw [look, h.cell, h.mark, look]
  split_ifs <;> rfl

/-- The look of content where it was built. -/
def builtLook (content : Content) : Option Content × Provenance :=
  (content.stored, if content.material = air then .natural else .placed)

/-- Content that has a name is written as built. -/
theorem place_spec (w : World) (pos : Pos) {content : Content} (h : content.material ≠ "") :
    ∃ before w', w.place pos content = (.ok before, w') ∧
      w.Coated (builtLook content) [pos] w' := by
  obtain ⟨before, w', hw⟩ := { w with placed := w.placed.insert pos }.write_of_named pos h
  refine ⟨before, w', hw, fun p => ?_⟩
  have hcell := getElem?_write { w with placed := w.placed.insert pos } pos h p
  have hmark := provenanceAt_place w pos content p
  rw [place] at hmark
  rw [hw] at hcell hmark
  rw [look, hcell, hmark, builtLook, look]
  by_cases hp : p = pos
  · simp [hp]
  · simp [hp, Ne.symm hp]

/-- Content that has a name is built at all of the positions. -/
theorem build_spec (w : World) {content : Content} (h : content.material ≠ "")
    (positions : List Pos) :
    ∃ w', w.build content positions = (.ok (), w') ∧ w.Coated (builtLook content) positions w' := by
  induction positions generalizing w with
  | nil => exact ⟨w, rfl, .nil w _⟩
  | cons pos rest ih =>
      obtain ⟨before, v, hv, hone⟩ := w.place_spec pos h
      obtain ⟨w', hw', hrest⟩ := ih v
      exact ⟨w', by rw [build, hv]; exact hw', hone.append hrest⟩

/-! ## Refused writes -/

/-- Content without a name is refused at the first position. -/
theorem fill_of_nameless (w : World) {content : Content} (h : content.material = "") (pos : Pos)
    (rest : List Pos) : (w.fill content (pos :: rest)).1 = .error (.emptyMaterial pos) := by
  simp [fill, setNatural, write, h]

theorem build_of_nameless (w : World) {content : Content} (h : content.material = "") (pos : Pos)
    (rest : List Pos) : (w.build content (pos :: rest)).1 = .error (.emptyMaterial pos) := by
  simp [build, place, write, h]

end World

/-! ## One patch -/

namespace Patch

/-- The position lies within the radius of the patch. -/
def Covers (patch : Patch) (p : Pos) : Prop :=
  p.squaredDistance patch.center ≤ (Ball.reach patch.radius : Int) ^ 2

instance (patch : Patch) (p : Pos) : Decidable (patch.Covers p) :=
  inferInstanceAs (Decidable (_ ≤ _))

/-- What the patch makes a position look like. -/
def coat (patch : Patch) : Option Content × Provenance :=
  ((Content.plain patch.material).stored,
    if patch.placed = true ∧ patch.material ≠ air then .placed else .natural)

theorem mem_ball_iff {patch : Patch} {p : Pos} :
    p ∈ patch.center.ball patch.radius ↔ patch.Covers p :=
  Pos.mem_ball

/-- The ball of a patch has a position, which is listed first. -/
theorem exists_head_ball (patch : Patch) :
    ∃ pos rest, patch.center.ball patch.radius = pos :: rest := by
  have hcenter : patch.center ∈ patch.center.ball patch.radius := by
    simp [Pos.mem_ball, Pos.squaredDistance]
  exact List.exists_cons_of_ne_nil (List.ne_nil_of_mem hcenter)

end Patch

namespace Scenario

variable {a : Atlas} {name : WorldName} {w : World} {patch : Patch} {patches : List Patch}

/-- A patch of a named material gives its look to the positions that it covers. -/
theorem paint_spec (hw : a.world? name = some w) (h : patch.material ≠ "") :
    ∃ b w', paint name a patch = .ok b ∧ b.world? name = some w' ∧
      ∀ p, w'.look p = if patch.Covers p then patch.coat else w.look p := by
  have hnamed : (Content.plain patch.material).material ≠ "" := h
  have hlook : ∀ {coat w'}, w.Coated coat (patch.center.ball patch.radius) w' → coat = patch.coat →
      ∀ p, w'.look p = if patch.Covers p then patch.coat else w.look p := by
    rintro coat w' hcoated rfl p
    exact (hcoated p).trans (if_congr Patch.mem_ball_iff rfl rfl)
  have hfound (w' : World) :
      ({ a with worlds := a.worlds.insert name w' } : Atlas).world? name = some w' := by
    rw [Atlas.world?_insert, if_pos rfl]
  unfold paint
  split_ifs with hplaced
  · obtain ⟨w', hbuild, hcoated⟩ := w.build_spec hnamed (patch.center.ball patch.radius)
    refine ⟨_, w', ?_, hfound w', hlook hcoated ?_⟩
    · simp only [Atlas.buildBall, Atlas.modifyWorld, hw, hbuild]
    · by_cases hair : patch.material = air <;>
        simp [World.builtLook, Patch.coat, Content.plain, hplaced, hair]
  · obtain ⟨w', hfill, hfilled⟩ := w.fill_spec hnamed (patch.center.ball patch.radius)
    refine ⟨_, w', ?_, hfound w', hlook hfilled.coated ?_⟩
    · simp only [Atlas.fillBall, Atlas.modifyWorld, hw, hfill]
    · simp [Patch.coat, hplaced]

/-- A patch without a material is refused where its ball begins. -/
theorem paint_of_nameless (hw : a.world? name = some w) (h : patch.material = "") :
    ∃ pos, (patch.center.ball patch.radius).head? = some pos ∧
      paint name a patch = .error (.emptyMaterial pos) := by
  obtain ⟨pos, rest, hball⟩ := patch.exists_head_ball
  have hnameless : (Content.plain patch.material).material = "" := h
  refine ⟨pos, by rw [hball]; rfl, ?_⟩
  unfold paint
  split_ifs
  · have hbuild := w.build_of_nameless hnameless pos rest
    simp only [Atlas.buildBall, Atlas.modifyWorld, hw, hball]
    rw [hbuild]
  · have hfill := w.fill_of_nameless hnameless pos rest
    simp only [Atlas.fillBall, Atlas.modifyWorld, hw, hball]
    rw [hfill]

/-! ## All patches -/

/-- The last of the patches that covers the position. -/
def topmost? (patches : List Patch) (p : Pos) : Option Patch :=
  (patches.filter (·.Covers p)).getLast?

theorem topmost?_cons (p : Pos) : topmost? (patch :: patches) p
    = if patch.Covers p then some ((topmost? patches p).getD patch) else topmost? patches p := by
  by_cases h : patch.Covers p <;> simp [topmost?, h, List.getLast?_cons]

/-- Patches of named materials give each position the look of the last one that covers it. -/
theorem paintAll_spec (hw : a.world? name = some w) (h : ∀ patch ∈ patches, patch.material ≠ "") :
    ∃ b w', paintAll name a patches = .ok b ∧ b.world? name = some w' ∧
      ∀ p, w'.look p = (topmost? patches p).elim (w.look p) Patch.coat := by
  induction patches generalizing a w with
  | nil => exact ⟨a, w, rfl, hw, fun p => rfl⟩
  | cons patch rest ih =>
      rw [List.forall_mem_cons] at h
      obtain ⟨b, v, hpaint, hv, hone⟩ := paint_spec hw h.1
      obtain ⟨c, w', hall, hw', hrest⟩ := ih hv h.2
      refine ⟨c, w', by rw [paintAll, hpaint]; exact hall, hw', fun p => ?_⟩
      rw [hrest p, hone p, topmost?_cons]
      split_ifs
      · cases topmost? rest p <;> rfl
      · rfl

/-- The first patch without a material is refused. -/
theorem paintAll_of_nameless (hw : a.world? name = some w)
    (h : patches.find? (·.material = "") = some patch) :
    ∃ pos, (patch.center.ball patch.radius).head? = some pos ∧
      paintAll name a patches = .error (.emptyMaterial pos) := by
  induction patches generalizing a w with
  | nil => cases h
  | cons first rest ih =>
      by_cases hfirst : first.material = ""
      · rw [List.find?_cons_of_pos (by simpa using hfirst)] at h
        cases h
        obtain ⟨pos, hhead, hpaint⟩ := paint_of_nameless hw hfirst
        exact ⟨pos, hhead, by rw [paintAll, hpaint]⟩
      · rw [List.find?_cons_of_neg (by simpa using hfirst)] at h
        obtain ⟨b, v, hpaint, hv, -⟩ := paint_spec hw hfirst
        obtain ⟨pos, hhead, hall⟩ := ih hv h
        exact ⟨pos, hhead, by rw [paintAll, hpaint]; exact hall⟩

/-- Building paints the terrain on an empty world. -/
theorem build_eq (s : Scenario) : ∃ a, a.world? s.world = some World.empty ∧
    s.build = paintAll s.world a s.terrain := by
  have hnew : (Atlas.empty s.vacant).hasWorld s.world = false := by
    rw [Atlas.hasWorld, Atlas.empty, Std.ExtTreeMap.contains_empty]
  refine ⟨{ Atlas.empty s.vacant with
    worlds := (Atlas.empty s.vacant).worlds.insert s.world World.empty }, ?_, ?_⟩
  · rw [Atlas.world?_insert, if_pos rfl]
  · rw [build, Atlas.addWorld, if_neg (by simp [hnew])]

/-- A scenario whose terrain is of named materials can be built. -/
theorem build_spec {s : Scenario} (h : ∀ patch ∈ s.terrain, patch.material ≠ "") :
    ∃ a w, s.build = .ok a ∧ a.world? s.world = some w ∧
      ∀ p, w.look p = (topmost? s.terrain p).elim (none, .natural) Patch.coat := by
  obtain ⟨a, hworld, hbuild⟩ := s.build_eq
  obtain ⟨b, w, hall, hw, hlook⟩ := paintAll_spec hworld h
  refine ⟨b, w, hbuild.trans hall, hw, fun p => ?_⟩
  rw [hlook p]
  simp [World.look, World.empty, World.provenanceAt]

/-- Each position of the scenario's world is as the last patch that covers it makes it, and as many
    positions hold something as patches other than air are the last on. -/
structure Painted (s : Scenario) (a : Atlas) : Prop where
  /-- Content without extra state, and none where the material is air or no patch covers it. -/
  content : ∀ p, a.contentAt? s.world p
    = (topmost? s.terrain p).bind fun patch => (Content.plain patch.material).stored
  placed_iff : ∀ p, a.provenanceAt s.world p = .placed ↔
    ∃ patch, topmost? s.terrain p = some patch ∧ patch.placed = true ∧ patch.material ≠ air
  solidCount : {p | ∃ patch, topmost? s.terrain p = some patch ∧ patch.material ≠ air}.encard
    = a.solidCount s.world

theorem painted_of_look {s : Scenario} (hw : a.world? s.world = some w)
    (hlook : ∀ p, w.look p = (topmost? s.terrain p).elim (none, .natural) Patch.coat) :
    s.Painted a := by
  have hcell : ∀ p, w.cells[p]?
      = (topmost? s.terrain p).bind fun patch => (Content.plain patch.material).stored := by
    intro p
    have hfirst := congrArg Prod.fst (hlook p)
    cases htop : topmost? s.terrain p <;> rw [htop] at hfirst <;> exact hfirst
  refine ⟨fun p => ?_, fun p => ?_, ?_⟩
  · rw [Atlas.contentAt?, hw]
    exact hcell p
  · have hsecond := congrArg Prod.snd (hlook p)
    rw [Atlas.provenanceAt, hw]
    show w.provenanceAt p = _ ↔ _
    cases htop : topmost? s.terrain p <;> rw [htop] at hsecond <;>
      simp_all [World.look, Patch.coat]
  · rw [Atlas.solidCount, hw, ← World.encard_solid]
    congr 1
    ext p
    show (∃ patch, _) ↔ w.cells[p]?.isSome = true
    rw [hcell p]
    cases topmost? s.terrain p with
    | none => simp
    | some patch =>
        by_cases hair : patch.material = air <;> simp [Content.stored, Content.plain, hair]

end Scenario

/-- **Terrain is painted over.** A scenario cannot be built just where some patch has no material,
    and then building is refused at the first position of the first such patch. Otherwise each
    position holds what the last patch that covers it is made of, and counts as built just where
    that patch is, whatever was painted there before. -/
theorem painted_over (s : Scenario) :
    ((∃ e, s.build = .error e) ↔ ∃ patch ∈ s.terrain, patch.material = "") ∧
      match s.build with
      | .error e => ∃ patch pos, s.terrain.find? (·.material = "") = some patch ∧
          (patch.center.ball patch.radius).head? = some pos ∧ e = .emptyMaterial pos
      | .ok a => s.Painted a := by
  cases hfind : s.terrain.find? (·.material = "") with
  | some patch =>
      obtain ⟨a, hworld, hbuild⟩ := s.build_eq
      obtain ⟨pos, hhead, hrefused⟩ := Scenario.paintAll_of_nameless hworld hfind
      rw [hbuild, hrefused]
      refine ⟨⟨fun _ => ⟨patch, List.mem_of_find?_eq_some hfind, ?_⟩, fun _ => ⟨_, rfl⟩⟩,
        patch, pos, rfl, hhead, rfl⟩
      simpa using List.find?_some hfind
  | none =>
      have hnamed : ∀ patch ∈ s.terrain, patch.material ≠ "" := by
        simpa [List.find?_eq_none] using hfind
      obtain ⟨a, w, hbuild, hw, hlook⟩ := Scenario.build_spec hnamed
      rw [hbuild]
      refine ⟨⟨?_, ?_⟩, Scenario.painted_of_look hw hlook⟩
      · rintro ⟨e, ⟨⟩⟩
      · rintro ⟨patch, hpatch, hempty⟩
        exact absurd hempty (hnamed patch hpatch)

/-- Five of the six positions of a ball at the end of the world are left when air is painted over
    its center, and one of these is built over. -/
example :
    let edge := Pos.clamp 2147483647 0 0
    let s : Scenario := { Scenario.default with
      world := "quarry"
      terrain := [⟨edge, 1, "stone", false⟩, ⟨edge, 0, "air", true⟩,
        ⟨Pos.clamp 2147483647 1 0, 0, "planks", true⟩] }
    s.build.toOption.map (fun a => (a.solidCount "quarry", a.materialAt "quarry" edge,
      a.provenanceAt "quarry" edge, a.provenanceAt "quarry" (Pos.clamp 2147483647 1 0)))
        = some (5, "air", .natural, .placed) := by
  decide +kernel

end Mend
