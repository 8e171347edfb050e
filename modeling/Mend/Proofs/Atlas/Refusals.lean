import Mend.Proofs.Atlas.Painting

set_option autoImplicit false

/-! # What a refused call leaves

A call on an atlas is refused where its world is missing or there already, where a cell is not
loaded, and where the material cannot be written. Painting says which of its cells were built, and
does so before it looks at the material. So a refused call leaves the atlas as it was, unless it
paints content without a name: then one position may count otherwise than before
(`refused_call_leaves`). -/

namespace Mend

/-! ## Marks -/

namespace World

variable {w w' : World} {kind : Provenance} {pos : Pos}

/-- The world with a position marked as terrain or as built. -/
def mark (w : World) : Provenance → Pos → World
  | .natural, pos => { w with placed := w.placed.erase pos }
  | .placed, pos => { w with placed := w.placed.insert pos }

/-- Marking a position changes nothing but the marks. -/
theorem mark_eq (w : World) (kind : Provenance) (pos : Pos) :
    w.mark kind pos = { w with placed := (w.mark kind pos).placed } := by
  cases kind <;> rfl

theorem provenanceAt_mark (w : World) (kind : Provenance) (pos p : Pos) :
    (w.mark kind pos).provenanceAt p = if pos = p then kind else w.provenanceAt p := by
  cases kind <;> by_cases hp : pos = p <;> simp [mark, provenanceAt, hp]

theorem placed_eq_of_provenanceAt (h : ∀ p, w'.provenanceAt p = w.provenanceAt p) :
    w'.placed = w.placed := by
  refine Std.ExtTreeSet.ext_contains fun p => ?_
  have hp := h p
  unfold provenanceAt at hp
  cases hnew : w'.placed.contains p <;> cases hold : w.placed.contains p <;>
    simp [hnew, hold] at hp ⊢

/-- Marking a position changes nothing where it counted as that before. -/
theorem mark_eq_self_iff : w.mark kind pos = w ↔ w.provenanceAt pos = kind := by
  constructor
  · intro h
    have hpos := provenanceAt_mark w kind pos pos
    rwa [h, if_pos rfl] at hpos
  · rintro rfl
    have hplaced : (w.mark (w.provenanceAt pos) pos).placed = w.placed := by
      refine placed_eq_of_provenanceAt fun p => ?_
      rw [provenanceAt_mark]
      split_ifs with hp
      · rw [hp]
      · rfl
    rw [mark_eq, hplaced]

/-! ## Refused writes -/

variable {content : Content} {e : AtlasError}

/-- A write is refused for want of a name, and leaves the world as it was. -/
theorem write_eq_error (h : w.write pos content = (.error e, w')) :
    content.material = "" ∧ e = .emptyMaterial pos ∧ w' = w := by
  unfold write at h
  split_ifs at h with hempty hair
  · cases h
    exact ⟨String.isEmpty_iff.1 hempty, rfl, rfl⟩
  · cases h
  · cases h

/-- Filling is refused at the first position. -/
theorem fill_eq_error {positions : List Pos} (h : w.fill content positions = (.error e, w')) :
    content.material = "" ∧ ∃ pos, positions.head? = some pos ∧ e = .emptyMaterial pos ∧
      w' = w.mark .natural pos := by
  have hempty : content.material = "" := by
    by_contra hnamed
    obtain ⟨w₁, hfill, -⟩ := w.fill_spec hnamed positions
    rw [hfill] at h
    cases h
  refine ⟨hempty, ?_⟩
  cases positions with
  | nil => cases h
  | cons pos rest =>
      have hrefused : w.setNatural pos content
          = (.error (.emptyMaterial pos), w.mark .natural pos) := by
        simp [setNatural, write, hempty, mark]
      rw [fill, hrefused] at h
      cases h
      exact ⟨pos, rfl, rfl, rfl⟩

end World

namespace Atlas

variable {a b : Atlas} {name : WorldName}

/-! ## Calls -/

/-- A call that changes the atlas it is made on. -/
inductive Call where
  | addWorld (name : WorldName)
  | setNatural (name : WorldName) (pos : Pos) (content : Content)
  | place (name : WorldName) (pos : Pos) (content : Content)
  | fillBall (name : WorldName) (center : Pos) (radius : Count) (material : String)
  | explode (name : WorldName) (blast : Blast)
  | clearBox (name : WorldName) (box : Box) (material : String)
  | unload (name : WorldName) (box : Box)
  | loadAll (name : WorldName)
  | restore (name : WorldName) (pos : Pos) (content : Content)

/-- Why a call was refused. -/
inductive Refusal where
  | atlas (e : AtlasError)
  | restore (e : RestoreError)
deriving DecidableEq

namespace Call

/-- The answer to a call, without what it returns. -/
def answer {ε α : Type} (wrap : ε → Refusal) : Except ε α × Atlas → Except Refusal Unit × Atlas
  | (.ok _, b) => (.ok (), b)
  | (.error e, b) => (.error (wrap e), b)

/-- Make a call. -/
def perform (a : Atlas) : Call → Except Refusal Unit × Atlas
  | addWorld name =>
    match a.addWorld name with
    | .ok b => (.ok (), b)
    | .error e => (.error (.atlas e), a)
  | setNatural name pos content => answer .atlas (a.setNatural name pos content)
  | place name pos content => answer .atlas (a.place name pos content)
  | fillBall name center radius material =>
    answer .atlas (a.fillBall name center radius material)
  | explode name blast => answer .atlas (a.explode name blast)
  | clearBox name box material => answer .atlas (a.clearBox name box material)
  | unload name box => answer .atlas (a.unload name box)
  | loadAll name => answer .atlas (a.loadAll name)
  | restore name pos content => answer .restore (a.restore name pos content)

/-- The name of the world that a call is about. -/
def world : Call → WorldName
  | addWorld name | setNatural name _ _ | place name _ _ | fillBall name _ _ _ | explode name _
  | clearBox name _ _ | unload name _ | loadAll name | restore name _ _ => name

/-- The first position that a call paints, what it makes that count as, and the material. -/
def painted? : Call → Option (Pos × Provenance × String)
  | setNatural _ pos content => some (pos, .natural, content.material)
  | place _ pos content => some (pos, .placed, content.material)
  | fillBall _ center radius material =>
    (center.ball radius).head?.map fun pos => (pos, .natural, material)
  | _ => none

theorem answer_eq_error {ε α : Type} {wrap : ε → Refusal} {r : Except ε α × Atlas} {e : Refusal}
    (h : answer wrap r = (.error e, b)) : ∃ e', r = (.error e', b) ∧ e = wrap e' := by
  obtain ⟨r, b'⟩ := r
  cases r with
  | ok _ => cases h
  | error e' =>
      cases h
      exact ⟨e', rfl, rfl⟩

end Call

/-! ## What they leave -/

/-- The atlases are the same but for one position of a world, which counts as `kind` in `b`. -/
structure Marked (a : Atlas) (name : WorldName) (pos : Pos) (kind : Provenance) (b : Atlas) :
    Prop where
  cells : ∀ n, (b.world? n).map (fun w => (w.cells, w.unloaded))
    = (a.world? n).map fun w => (w.cells, w.unloaded)
  mark : b.provenanceAt name pos = kind
  others : ∀ n p, (n, p) ≠ (name, pos) → b.provenanceAt n p = a.provenanceAt n p
  rest : b = { a with worlds := b.worlds }
  /-- Where it counted as `kind` before, nothing is different. -/
  same : b = a ↔ a.provenanceAt name pos = kind

theorem marked_insert {w : World} (hw : a.world? name = some w) (pos : Pos) (kind : Provenance) :
    a.Marked name pos kind { a with worlds := a.worlds.insert name (w.mark kind pos) } := by
  have hold : a.provenanceAt name pos = w.provenanceAt pos := by
    rw [provenanceAt, hw]
  have hnew : ({ a with worlds := a.worlds.insert name (w.mark kind pos) } : Atlas).provenanceAt
      name pos = kind := by
    rw [provenanceAt_insert, if_pos rfl, World.provenanceAt_mark, if_pos rfl]
  refine ⟨fun n => ?_, hnew, fun n p hne => ?_, rfl, fun heq => ?_, fun hkind => ?_⟩
  · rw [world?_insert]
    split_ifs with hn
    · subst hn
      rw [hw, World.mark_eq]
      rfl
    · rfl
  · rw [provenanceAt_insert]
    split_ifs with hn
    · subst hn
      have hp : pos ≠ p := fun hp => hne (by rw [hp])
      rw [World.provenanceAt_mark, if_neg hp, provenanceAt, hw]
    · rfl
  · rwa [heq] at hnew
  · rw [World.mark_eq_self_iff.2 (hold.symm.trans hkind)]
    exact insert_self hw

/-- Changing a world is refused where there is no such world, or by the change. -/
theorem modifyWorld_eq_error {α : Type} {f : World → Except AtlasError α × World}
    {e : AtlasError} (h : a.modifyWorld name f = (.error e, b)) :
    e = .worldNotFound name ∧ b = a ∨
    ∃ w w', a.world? name = some w ∧ f w = (.error e, w') ∧
      b = { a with worlds := a.worlds.insert name w' } := by
  rcases a.modifyWorld_cases name f with ⟨-, heq⟩ | ⟨w, hw, heq⟩ <;> rw [heq] at h
  · cases h
    exact Or.inl ⟨rfl, rfl⟩
  · obtain ⟨hr, rfl⟩ := Prod.mk.inj h
    exact Or.inr ⟨w, (f w).2, hw, Prod.ext hr rfl, rfl⟩

/-- What a refused call leaves: the atlas as it was, or one position of it marked. -/
def Left (a : Atlas) (c : Call) (e : Refusal) (b : Atlas) : Prop :=
  b = a ∧ (∀ pos, e ≠ .atlas (.emptyMaterial pos)) ∨
  ∃ pos kind, e = .atlas (.emptyMaterial pos) ∧ c.painted? = some (pos, kind, "") ∧
    a.Marked c.world pos kind b

variable {c : Call} {e : Refusal}

/-- Where a change of a world marks a position and then is refused, that is what is left. -/
theorem left_of_modifyWorld {α : Type} {f : World → Except AtlasError α × World} {e : AtlasError}
    (h : a.modifyWorld c.world f = (.error e, b))
    (hf : ∀ w w' e, f w = (.error e, w') → ∃ pos kind, e = .emptyMaterial pos ∧
      c.painted? = some (pos, kind, "") ∧ w' = w.mark kind pos) : a.Left c (.atlas e) b := by
  rcases modifyWorld_eq_error h with ⟨rfl, rfl⟩ | ⟨w, w', hw, hrefused, rfl⟩
  · exact Or.inl ⟨rfl, fun pos heq => by cases heq⟩
  · obtain ⟨pos, kind, rfl, hpainted, rfl⟩ := hf w w' e hrefused
    exact Or.inr ⟨pos, kind, rfl, hpainted, marked_insert hw pos kind⟩

theorem fillBall_eq_error {center : Pos} {radius : Count} {material : String} {e : AtlasError}
    (h : a.fillBall name center radius material = (.error e, b)) :
    (a.modifyWorld name fun w => w.fill (Content.plain material) (center.ball radius))
      = (.error e, b) := by
  simp only [fillBall] at h
  split at h <;> cases h
  assumption

theorem restore_eq_error {pos : Pos} {content : Content} {e : RestoreError}
    (h : a.restore name pos content = (.error e, b)) : b = a := by
  unfold restore at h
  split at h
  · cases h
    rfl
  · split at h
    · cases h
      rfl
    · split at h <;> cases h
      rfl

/-- **A refused call leaves the atlas as it was, but for one mark.** Whatever the atlas, a call that
    is refused for any reason but an empty material leaves all of it as it was. One that is refused
    for an empty material was to paint with it. It leaves the first position it was to paint marked
    as if it had been painted, which is a change where this position counted otherwise, and all else
    as it was. -/
theorem refused_call_leaves (h : c.perform a = (.error e, b)) : a.Left c e b := by
  cases c with
  | addWorld name =>
      simp only [Call.perform] at h
      split at h
      · cases h
      · next e' hadd =>
        cases h
        refine Or.inl ⟨rfl, fun pos heq => ?_⟩
        unfold addWorld at hadd
        split_ifs at hadd
        cases hadd
        cases heq
  | setNatural name pos content =>
      obtain ⟨e', hset, rfl⟩ := Call.answer_eq_error h
      refine left_of_modifyWorld hset fun w w' e hw => ?_
      obtain ⟨hempty, rfl, rfl⟩ := World.write_eq_error (w := w.mark .natural pos) hw
      exact ⟨pos, .natural, rfl, by simp [Call.painted?, hempty], rfl⟩
  | place name pos content =>
      obtain ⟨e', hplace, rfl⟩ := Call.answer_eq_error h
      refine left_of_modifyWorld hplace fun w w' e hw => ?_
      obtain ⟨hempty, rfl, rfl⟩ := World.write_eq_error (w := w.mark .placed pos) hw
      exact ⟨pos, .placed, rfl, by simp [Call.painted?, hempty], rfl⟩
  | fillBall name center radius material =>
      obtain ⟨e', hfill, rfl⟩ := Call.answer_eq_error h
      refine left_of_modifyWorld (fillBall_eq_error hfill) fun w w' e hw => ?_
      obtain ⟨hempty, pos, hfirst, rfl, rfl⟩ := World.fill_eq_error hw
      replace hempty : material = "" := hempty
      exact ⟨pos, .natural, rfl, by simp [Call.painted?, hfirst, hempty], rfl⟩
  | explode name blast =>
      obtain ⟨e', hexplode, rfl⟩ := Call.answer_eq_error h
      exact left_of_modifyWorld hexplode fun w w' e hw => by cases hw
  | clearBox name box material =>
      obtain ⟨e', hclear, rfl⟩ := Call.answer_eq_error h
      exact left_of_modifyWorld hclear fun w w' e hw => by cases hw
  | unload name box =>
      obtain ⟨e', hunload, rfl⟩ := Call.answer_eq_error h
      exact left_of_modifyWorld hunload fun w w' e hw => by cases hw
  | loadAll name =>
      obtain ⟨e', hload, rfl⟩ := Call.answer_eq_error h
      exact left_of_modifyWorld hload fun w w' e hw => by cases hw
  | restore name pos content =>
      obtain ⟨e', hrestore, rfl⟩ := Call.answer_eq_error h
      exact Or.inl ⟨restore_eq_error hrestore, fun pos heq => by cases heq⟩

/-- Planks are built. A write of content without a name at their position is refused, and leaves
    them counting as terrain. -/
theorem refused_call_leaves_planks_natural : ∃ b,
    let a := (((Atlas.empty []).withWorld "quarry").place "quarry" (Pos.clamp 0 0 0)
      (Content.plain "planks")).2
    let call := Call.setNatural "quarry" (Pos.clamp 0 0 0) (Content.plain "")
    call.perform a = (.error (.atlas (.emptyMaterial (Pos.clamp 0 0 0))), b) ∧
      a.Marked "quarry" (Pos.clamp 0 0 0) .natural b ∧
      a.provenanceAt "quarry" (Pos.clamp 0 0 0) = .placed := by
  refine ⟨_, rfl, ?_, by decide +kernel⟩
  rcases refused_call_leaves (c := .setNatural "quarry" (Pos.clamp 0 0 0) (Content.plain ""))
      (a := (((Atlas.empty []).withWorld "quarry").place "quarry" (Pos.clamp 0 0 0)
        (Content.plain "planks")).2) rfl with ⟨-, hother⟩ | ⟨pos, kind, -, hpainted, hmarked⟩
  · exact absurd rfl (hother _)
  · cases hpainted
    exact hmarked

/-- Not every refused call leaves the atlas as it was. -/
theorem refused_call_changes : ¬ ∀ (a b : Atlas) (c : Call) (e : Refusal),
    c.perform a = (.error e, b) → b = a := by
  intro h
  have hsame := h (((Atlas.empty []).withWorld "quarry").place "quarry" (Pos.clamp 0 0 0)
    (Content.plain "planks")).2 _ (.setNatural "quarry" (Pos.clamp 0 0 0) (Content.plain "")) _ rfl
  have hmark := congrArg (fun a => a.provenanceAt "quarry" (Pos.clamp 0 0 0)) hsame
  exact absurd hmark (by decide +kernel)

end Atlas

end Mend
