import Mathlib.Tactic.SplitIfs
import Mend.Atlas.Blast
import Mend.Atlas.Paint
import Mend.Atlas.Restore

set_option autoImplicit false

/-! # What the cells of an atlas hold

A position that holds air has no entry in its world, and no operation writes a material without a
name. So whatever stands on a cell of an atlas that was made by its operations is solid: it has a
name, and that name is not air (`Atlas.Made.solid`). Each operation on worlds keeps its worlds
solid, and the operations on atlases change one world at most. -/

namespace Mend

/-- Content that can stand on a cell. -/
structure Content.Solid (c : Content) : Prop where
  named : c.material ≠ ""
  not_air : c.material ≠ air

theorem Content.Solid.isEmpty_material {c : Content} (h : c.Solid) :
    c.material.isEmpty = false := by
  simpa [Bool.eq_false_iff] using h.named

namespace World

/-- Everything that stands on a cell of the world is solid. -/
def Solid (w : World) : Prop := ∀ (pos : Pos) (c : Content), w.cells[pos]? = some c → c.Solid

/-! ## The operations on worlds -/

theorem solid_empty : empty.Solid := by
  intro pos c h
  simp [empty] at h

variable {w : World}

theorem Solid.erase (h : w.Solid) (pos : Pos) (placed : Std.ExtTreeSet Pos) :
    Solid { w with cells := w.cells.erase pos, placed } := by
  intro p c hc
  rw [Std.ExtTreeMap.getElem?_erase] at hc
  split_ifs at hc
  exact h p c hc

theorem Solid.insert (h : w.Solid) (pos : Pos) {content : Content} (hsolid : content.Solid) :
    Solid { w with cells := w.cells.insert pos content } := by
  intro p c hc
  rw [Std.ExtTreeMap.getElem?_insert] at hc
  split_ifs at hc with hp
  · cases hc
    exact hsolid
  · exact h p c hc

theorem Solid.write (h : w.Solid) (pos : Pos) (content : Content) :
    (w.write pos content).2.Solid := by
  unfold World.write
  split_ifs with hempty hair
  · exact h
  · exact h.erase pos _
  · exact h.insert pos ⟨fun heq => hempty (String.isEmpty_iff.2 heq), hair⟩

theorem Solid.setNatural (h : w.Solid) (pos : Pos) (content : Content) :
    (w.setNatural pos content).2.Solid :=
  @Solid.write { w with placed := w.placed.erase pos } h pos content

theorem Solid.place (h : w.Solid) (pos : Pos) (content : Content) :
    (w.place pos content).2.Solid :=
  @Solid.write { w with placed := w.placed.insert pos } h pos content

theorem Solid.fill (h : w.Solid) (content : Content) (positions : List Pos) :
    (w.fill content positions).2.Solid := by
  induction positions generalizing w with
  | nil => exact h
  | cons pos rest ih =>
      have hone := h.setNatural pos content
      rw [World.fill]
      split <;> rename_i heq <;> rw [heq] at hone
      · exact ih hone
      · exact hone

theorem Solid.clearBox (h : w.Solid) (box : Box) (material : String) :
    (w.clearBox box material).Solid := by
  intro pos c hc
  rw [World.clearBox, Std.ExtTreeMap.getElem?_filter', Option.filter_eq_some_iff] at hc
  exact h pos c hc.1

theorem Solid.carveCell (h : w.Solid) (vacant : List String) (pos : Pos) :
    (w.carveCell vacant pos).2.Solid := by
  unfold World.carveCell
  split
  · exact h
  · split_ifs
    · exact h
    · exact h.erase pos w.placed

theorem Solid.carve (h : w.Solid) (vacant : List String) (positions : List Pos) :
    (w.carve vacant positions).2.Solid := by
  show (List.foldl _ ([], w) positions).2.Solid
  generalize hacc : (([], w) : List LostCell × World) = acc
  replace h : acc.2.Solid := hacc ▸ h
  clear hacc
  induction positions generalizing acc with
  | nil => exact h
  | cons pos rest ih =>
      have hone := h.carveCell vacant pos
      rw [List.foldl_cons]
      refine ih _ ?_
      split <;> rename_i heq <;> rw [heq] at hone <;> exact hone

theorem Solid.ignite (h : w.Solid) (positions : List Pos) : (w.ignite positions).Solid := by
  have hfire : (Content.plain fireMaterial).Solid := ⟨by decide, by decide⟩
  unfold World.ignite
  induction positions generalizing w with
  | nil => exact h
  | cons pos rest ih => exact ih (h.insert pos hfire)

theorem Solid.explode (h : w.Solid) (vacant : List String) (blast : Blast) :
    (w.explode vacant blast).2.Solid := by
  have hcarved := h.carve vacant (blast.origin.ball blast.radius)
  unfold World.explode
  split_ifs
  · exact hcarved.ignite _
  · exact hcarved

end World

/-! ## The operations on atlases -/

namespace Atlas

variable {a b : Atlas} {name : WorldName}

/-- Changing one world fails where there is no such world, and replaces it where there is. -/
theorem modifyWorld_cases {α : Type} (a : Atlas) (name : WorldName)
    (f : World → Except AtlasError α × World) :
    (a.world? name = none ∧ a.modifyWorld name f = (.error (.worldNotFound name), a)) ∨
    ∃ w, a.world? name = some w ∧ a.modifyWorld name f
      = ((f w).1, { a with worlds := a.worlds.insert name (f w).2 }) := by
  unfold modifyWorld
  cases h : a.world? name with
  | none => exact Or.inl ⟨rfl, rfl⟩
  | some w => exact Or.inr ⟨w, rfl, rfl⟩

/-- Filling a ball changes an atlas as filling its positions does. -/
theorem fillBall_eq (a : Atlas) (name : WorldName) (center : Pos) (radius : Count)
    (material : String) : a.fillBall name center radius material =
      ((a.modifyWorld name fun w => w.fill (Content.plain material) (center.ball radius)).1.map
        fun _ => (center.ball radius).length,
      (a.modifyWorld name fun w => w.fill (Content.plain material) (center.ball radius)).2) := by
  simp only [fillBall]
  split <;> next heq => rw [heq]; rfl

section Insert

variable (a : Atlas) (name other : WorldName) (w : World) (pos : Pos)

/-- Only the world that is replaced reads differently afterwards. -/
theorem world?_insert : ({ a with worlds := a.worlds.insert name w } : Atlas).world? other
    = if name = other then some w else a.world? other := by
  rw [world?, Std.ExtTreeMap.getElem?_insert]
  simp only [Std.LawfulEqCmp.compare_eq_iff_eq]
  rfl

/-- Replacing a world by itself changes nothing. -/
theorem insert_self {a : Atlas} {name : WorldName} {w : World} (hw : a.world? name = some w) :
    ({ a with worlds := a.worlds.insert name w } : Atlas) = a := by
  have hworlds : a.worlds.insert name w = a.worlds := by
    refine Std.ExtTreeMap.ext_getElem? fun n => ?_
    show ({ a with worlds := a.worlds.insert name w } : Atlas).world? n = a.world? n
    rw [world?_insert]
    split_ifs with hn
    · rw [← hn, hw]
    · rfl
  rw [hworlds]

theorem contentAt?_insert :
    ({ a with worlds := a.worlds.insert name w } : Atlas).contentAt? other pos
      = if name = other then w.cells[pos]? else a.contentAt? other pos := by
  rw [contentAt?, world?_insert]
  split_ifs <;> rfl

theorem provenanceAt_insert :
    ({ a with worlds := a.worlds.insert name w } : Atlas).provenanceAt other pos
      = if name = other then w.provenanceAt pos else a.provenanceAt other pos := by
  rw [provenanceAt, world?_insert]
  split_ifs <;> rfl

theorem hasWorld_eq : a.hasWorld name = (a.world? name).isSome := by
  rw [hasWorld, world?, Std.ExtTreeMap.contains_eq_isSome_getElem?]

/-- A change of one cell of a world is a change of that cell alone. -/
theorem contentAt?_insert_cell (hw : a.world? name = some w) (content : Content) (p : Pos) :
    ({ a with worlds := a.worlds.insert name { w with cells := w.cells.insert pos content } } :
      Atlas).contentAt? other p
      = if (name, pos) = (other, p) then some content else a.contentAt? other p := by
  rw [contentAt?_insert, Std.ExtTreeMap.getElem?_insert]
  by_cases hname : name = other
  · subst hname
    by_cases hpos : pos = p
    · simp [hpos]
    · simp [hpos, contentAt?, hw]
  · simp [hname]

end Insert

/-- Changing a world removes none. -/
theorem hasWorld_modifyWorld {α : Type} {other : WorldName} (f : World → Except AtlasError α × World)
    (h : a.hasWorld other = true) : (a.modifyWorld name f).2.hasWorld other = true := by
  rcases a.modifyWorld_cases name f with ⟨-, heq⟩ | ⟨w, -, heq⟩ <;> rw [heq]
  · exact h
  · rw [hasWorld_eq] at h ⊢
    rw [world?_insert]
    split_ifs
    · rfl
    · exact h

/-- A cell with content lies in a world. -/
theorem world?_of_contentAt? {pos : Pos} {c : Content} (h : a.contentAt? name pos = some c) :
    ∃ w, a.world? name = some w := by
  obtain ⟨w, hw, -⟩ := Option.bind_eq_some_iff.1 h
  exact ⟨w, hw⟩

/-- Solid content is put back where its material is not rejected and the cell is loaded. -/
theorem restore_eq_ok {w : World} {pos : Pos} {content : Content} (hw : a.world? name = some w)
    (hloaded : w.isLoaded pos = true) (haccepted : content.material ∉ a.rejected)
    (hsolid : content.Solid) : a.restore name pos content = (.ok (), { a with
      worlds := a.worlds.insert name { w with cells := w.cells.insert pos content } }) := by
  simp [restore, haccepted, hsolid.isEmpty_material, hw, hloaded, hsolid.not_air]

/-- Signalling changes nothing but the signals. -/
theorem signal_eq (a : Atlas) (name : WorldName) (pos : Pos) :
    ∃ signals, (a.signal name pos).2 = { a with signals } := by
  unfold signal
  split_ifs
  · exact ⟨a.signals, rfl⟩
  · exact ⟨_, rfl⟩

/-- An atlas all of whose worlds are solid, in which air is vacant. -/
structure Solid (a : Atlas) : Prop where
  worlds : ∀ name w, a.world? name = some w → w.Solid
  air_vacant : a.isVacantMaterial air = true

theorem solid_empty (vacant : List String) : (empty vacant).Solid where
  worlds name w h := by simp [empty, world?] at h
  air_vacant := by simp [empty, isVacantMaterial]

/-- Putting a solid world into an atlas. -/
theorem Solid.insert (h : a.Solid) {w : World} (hw : w.Solid) :
    Solid { a with worlds := a.worlds.insert name w } where
  worlds name' w' h' := by
    rw [world?_insert] at h'
    split_ifs at h'
    · cases h'
      exact hw
    · exact h.worlds name' w' h'
  air_vacant := h.air_vacant

theorem Solid.modifyWorld {α : Type} (h : a.Solid) {f : World → Except AtlasError α × World}
    (hf : ∀ w : World, w.Solid → (f w).2.Solid) : (a.modifyWorld name f).2.Solid := by
  rcases a.modifyWorld_cases name f with ⟨-, heq⟩ | ⟨w, hw, heq⟩ <;> rw [heq]
  · exact h
  · exact h.insert (hf w (h.worlds name w hw))

theorem Solid.withWorld (h : a.Solid) (name : WorldName) : (a.withWorld name).Solid := by
  unfold Atlas.withWorld
  split_ifs
  · exact h
  · exact h.insert World.solid_empty

theorem Solid.addWorld (h : a.Solid) (hb : a.addWorld name = .ok b) : b.Solid := by
  unfold Atlas.addWorld at hb
  split_ifs at hb
  cases hb
  exact h.insert World.solid_empty

theorem Solid.fillBall (h : a.Solid) (name : WorldName) (center : Pos) (radius : Count)
    (material : String) : (a.fillBall name center radius material).2.Solid := by
  have hfilled : (a.modifyWorld name fun w =>
      w.fill (Content.plain material) (center.ball radius)).2.Solid :=
    h.modifyWorld fun w hw => hw.fill _ _
  rw [fillBall_eq]
  exact hfilled

theorem Solid.restore (h : a.Solid) (name : WorldName) (pos : Pos) (content : Content) :
    (a.restore name pos content).2.Solid := by
  unfold Atlas.restore
  split
  · exact h
  · next hrefused =>
    split
    · exact h
    · next w hw =>
      split
      · exact h
      · refine h.insert ?_
        split_ifs with hair
        · exact (h.worlds name w hw).erase pos w.placed
        · refine (h.worlds name w hw).insert pos ⟨fun heq => hrefused ?_, hair⟩
          simp [heq]

/-- Every part of every world is loaded. -/
def Loaded (a : Atlas) : Prop := ∀ name w, a.world? name = some w → w.unloaded = []

theorem loaded_empty (vacant : List String) : (empty vacant).Loaded := by
  intro name w h
  simp [empty, world?] at h

/-- Putting a loaded world into an atlas. -/
theorem Loaded.insert (h : a.Loaded) {w : World} (hw : w.unloaded = []) :
    Loaded { a with worlds := a.worlds.insert name w } := by
  intro n v hv
  rw [world?_insert] at hv
  split_ifs at hv
  · cases hv
    exact hw
  · exact h n v hv

theorem Loaded.withWorld (h : a.Loaded) (name : WorldName) : (a.withWorld name).Loaded := by
  unfold Atlas.withWorld
  split_ifs
  · exact h
  · exact h.insert rfl

theorem Loaded.modifyWorld {α : Type} (h : a.Loaded) {f : World → Except AtlasError α × World}
    (hf : ∀ w : World, (f w).2.unloaded = w.unloaded) : (a.modifyWorld name f).2.Loaded := by
  rcases a.modifyWorld_cases name f with ⟨-, heq⟩ | ⟨w, hw, heq⟩ <;> rw [heq]
  · exact h
  · exact h.insert ((hf w).trans (h name w hw))

/-- Writing a cell loads and unloads nothing. -/
theorem unloaded_write (w : World) (pos : Pos) (content : Content) :
    (w.write pos content).2.unloaded = w.unloaded := by
  unfold World.write
  split_ifs <;> rfl

theorem Loaded.setNatural (h : a.Loaded) (name : WorldName) (pos : Pos) (content : Content) :
    (a.setNatural name pos content).2.Loaded :=
  h.modifyWorld fun w => unloaded_write { w with placed := w.placed.erase pos } pos content

theorem Loaded.place (h : a.Loaded) (name : WorldName) (pos : Pos) (content : Content) :
    (a.place name pos content).2.Loaded :=
  h.modifyWorld fun w => unloaded_write { w with placed := w.placed.insert pos } pos content

/-- An atlas that was made by operations on atlases. -/
inductive Made : Atlas → Prop where
  | empty (vacant : List String) : Made (Atlas.empty vacant)
  | addWorld {a b : Atlas} (made : Made a) (name : WorldName) (added : a.addWorld name = .ok b) :
      Made b
  | withWorld {a : Atlas} (made : Made a) (name : WorldName) : Made (a.withWorld name)
  | setNatural {a : Atlas} (made : Made a) (name : WorldName) (pos : Pos) (content : Content) :
      Made (a.setNatural name pos content).2
  | place {a : Atlas} (made : Made a) (name : WorldName) (pos : Pos) (content : Content) :
      Made (a.place name pos content).2
  | fillBall {a : Atlas} (made : Made a) (name : WorldName) (center : Pos) (radius : Count)
      (material : String) : Made (a.fillBall name center radius material).2
  | explode {a : Atlas} (made : Made a) (name : WorldName) (blast : Blast) :
      Made (a.explode name blast).2
  | clearBox {a : Atlas} (made : Made a) (name : WorldName) (box : Box) (material : String) :
      Made (a.clearBox name box material).2
  | unload {a : Atlas} (made : Made a) (name : WorldName) (box : Box) : Made (a.unload name box).2
  | loadAll {a : Atlas} (made : Made a) (name : WorldName) : Made (a.loadAll name).2
  | reject {a : Atlas} (made : Made a) (material : String) : Made (a.reject material)
  | mute {a : Atlas} (made : Made a) (muted : Bool) : Made (a.mute muted)
  | restore {a : Atlas} (made : Made a) (name : WorldName) (pos : Pos) (content : Content) :
      Made (a.restore name pos content).2
  | signal {a : Atlas} (made : Made a) (name : WorldName) (pos : Pos) :
      Made (a.signal name pos).2

/-- The operations keep an atlas solid. -/
theorem Made.solid (h : a.Made) : a.Solid := by
  induction h with
  | empty vacant => exact solid_empty vacant
  | addWorld _ name added ih => exact ih.addWorld added
  | withWorld _ name ih => exact ih.withWorld name
  | setNatural _ name pos content ih => exact ih.modifyWorld fun w hw => hw.setNatural pos content
  | place _ name pos content ih => exact ih.modifyWorld fun w hw => hw.place pos content
  | fillBall _ name center radius material ih => exact ih.fillBall name center radius material
  | explode _ name blast ih => exact ih.modifyWorld fun w hw => hw.explode _ blast
  | clearBox _ name box material ih => exact ih.modifyWorld fun w hw => hw.clearBox box material
  | unload _ name box ih => exact ih.modifyWorld fun w hw => hw
  | loadAll _ name ih => exact ih.modifyWorld fun w hw => hw
  | reject _ material ih =>
      unfold Atlas.reject
      split_ifs
      · exact ih
      · exact ⟨ih.worlds, ih.air_vacant⟩
  | mute _ muted ih => exact ⟨ih.worlds, ih.air_vacant⟩
  | restore _ name pos content ih => exact ih.restore name pos content
  | signal _ name pos ih =>
      unfold Atlas.signal
      split_ifs
      · exact ih
      · exact ⟨ih.worlds, ih.air_vacant⟩

/-- Whatever stands on a cell of a solid atlas is solid. -/
theorem Solid.contentAt? (h : a.Solid) {pos : Pos} {c : Content}
    (hc : a.contentAt? name pos = some c) : c.Solid := by
  obtain ⟨w, hw, hcell⟩ := Option.bind_eq_some_iff.1 hc
  exact h.worlds name w hw pos c hcell

end Atlas

end Mend
