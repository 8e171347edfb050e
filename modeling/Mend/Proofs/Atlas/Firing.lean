import Mend.Proofs.Atlas.Contents
import Mend.Proofs.Scheduler.Phases

set_option autoImplicit false

/-! # Firing tasks on an atlas

How the cell of a task comes out is decided by the atlas on which the task fires
(`Atlas.outcomeOf`): what stands there is not overwritten, and what cannot be put back is not.
Firing then changes at most what this one cell holds, and of everything else only the signals.
So tasks with different cells do not get in each other's way: each comes out as it would alone
(`Atlas.map_shots`), and afterwards its cell holds what it would alone
(`Atlas.contentAt?_fireAll_of_mem`). -/

namespace Mend

/-- What a restored cell holds. Content made of air leaves the cell empty. -/
def Task.restored (t : Task) : Option Content :=
  if t.content.material = air then none else some t.content

/-- The world with the content of a task put back. -/
def World.putBack (w : World) (t : Task) : World :=
  { w with cells := if t.content.material = air then w.cells.erase t.pos
      else w.cells.insert t.pos t.content }

theorem World.getElem?_putBack (w : World) (t : Task) (pos : Pos) :
    (w.putBack t).cells[pos]? = if t.pos = pos then t.restored else w.cells[pos]? := by
  unfold putBack Task.restored
  by_cases hair : t.content.material = air
  · simp [hair, Std.ExtTreeMap.getElem?_erase]
  · simp [hair, Std.ExtTreeMap.getElem?_insert]

namespace Atlas

/-- Whether restoring the cell of a task would be refused: the material cannot be placed, there is
    no such world, or the cell is not loaded. -/
def refuses (a : Atlas) (t : Task) : Bool :=
  a.rejected.contains t.content.material || t.content.material.isEmpty ||
    !((a.world? t.world).any (·.isLoaded t.pos))

/-- How the cell of a task comes out if the task fires now. -/
def outcomeOf (a : Atlas) (t : Task) : Outcome :=
  if !a.isVacantMaterial (a.materialAt t.world t.pos) then .skipped
  else if a.refuses t then .failed
  else .restored

/-- What the cell of a task holds after the task has fired now. -/
def contentAfter (a : Atlas) (t : Task) : Option Content :=
  if a.outcomeOf t = .restored then t.restored else a.contentAt? t.world t.pos

/-- The atlases `a` and `b` have the same worlds, the same places built in them and the same parts
    of them loaded, and the same rules. They may differ in what stands on cells and in the
    signals. -/
structure SameRules (a b : Atlas) : Prop where
  worlds : ∀ name, (b.world? name).map (fun w => (w.placed, w.unloaded))
    = (a.world? name).map fun w => (w.placed, w.unloaded)
  vacant : b.vacant = a.vacant
  rejected : b.rejected = a.rejected
  muted : b.muted = a.muted

namespace SameRules

variable {a b c : Atlas}

theorem refl (a : Atlas) : a.SameRules a := ⟨fun _ => rfl, rfl, rfl, rfl⟩

theorem trans (hab : a.SameRules b) (hbc : b.SameRules c) : a.SameRules c where
  worlds name := (hbc.worlds name).trans (hab.worlds name)
  vacant := hbc.vacant.trans hab.vacant
  rejected := hbc.rejected.trans hab.rejected
  muted := hbc.muted.trans hab.muted

theorem hasWorld (h : a.SameRules b) (name : WorldName) : b.hasWorld name = a.hasWorld name := by
  have hsome := congrArg Option.isSome (h.worlds name)
  rwa [Option.isSome_map, Option.isSome_map, ← hasWorld_eq, ← hasWorld_eq] at hsome

theorem refuses (h : a.SameRules b) (t : Task) : b.refuses t = a.refuses t := by
  have hloaded : (b.world? t.world).any (·.isLoaded t.pos)
      = (a.world? t.world).any (·.isLoaded t.pos) := by
    have hparts := congrArg (Option.any fun p => !p.2.any (·.contains t.pos)) (h.worlds t.world)
    rwa [Option.any_map, Option.any_map] at hparts
  rw [Atlas.refuses, h.rejected, hloaded, Atlas.refuses]

/-- Where the cell of a task holds the same, the task comes out the same. -/
theorem outcomeOf (h : a.SameRules b) {t : Task}
    (hcell : b.contentAt? t.world t.pos = a.contentAt? t.world t.pos) :
    b.outcomeOf t = a.outcomeOf t := by
  have hmaterial : b.materialAt t.world t.pos = a.materialAt t.world t.pos := by
    rw [materialAt, hcell]
    rfl
  have hvacant : ∀ m, b.isVacantMaterial m = a.isVacantMaterial m := fun m => by
    rw [isVacantMaterial, h.vacant]
    rfl
  rw [Atlas.outcomeOf, hmaterial, hvacant, h.refuses]
  rfl

end SameRules

/-! ## Firing one task -/

/-- Restoring is refused and changes nothing, or it puts the content back. -/
theorem restore_cases (a : Atlas) (t : Task) :
    (a.refuses t = true ∧ ∃ e, a.restore t.world t.pos t.content = (.error e, a)) ∨
    (a.refuses t = false ∧ ∃ w, a.world? t.world = some w ∧
      a.restore t.world t.pos t.content
        = (.ok (), { a with worlds := a.worlds.insert t.world (w.putBack t) })) := by
  by_cases hinvalid : (a.rejected.contains t.content.material || t.content.material.isEmpty) = true
  · exact Or.inl ⟨by rw [refuses, hinvalid, Bool.true_or], _, by rw [restore, if_pos hinvalid]⟩
  · rw [refuses, restore, if_neg hinvalid, Bool.eq_false_iff.2 hinvalid, Bool.false_or]
    cases a.world? t.world with
    | none => exact Or.inl ⟨rfl, _, rfl⟩
    | some w =>
        cases hloaded : w.isLoaded t.pos with
        | false => exact Or.inl ⟨by simp [hloaded], _, by simp only [hloaded]; rfl⟩
        | true => exact Or.inr ⟨by simp [hloaded], w, rfl, by simp only [hloaded]; rfl⟩

/-- A task that is not restored leaves the atlas alone; one that is restored is put back on its
    cell, and signalled. -/
theorem fire_cases (a : Atlas) (t : Task) :
    (a.outcomeOf t ≠ .restored ∧ Scheduler.fire a t = (a.outcomeOf t, a)) ∨
    (a.outcomeOf t = .restored ∧ ∃ w signals, a.world? t.world = some w ∧ Scheduler.fire a t
      = (.restored, { a with worlds := a.worlds.insert t.world (w.putBack t), signals })) := by
  by_cases hvacant : Ground.isVacant a t.world t.pos = true
  · have hmaterial : a.isVacantMaterial (a.materialAt t.world t.pos) = true := hvacant
    rcases a.restore_cases t with ⟨hrefuses, e, hrestore⟩ | ⟨hrefuses, w, hw, hrestore⟩
    · have houtcome : a.outcomeOf t = .failed := by simp [outcomeOf, hmaterial, hrefuses]
      refine Or.inl ⟨by simp [houtcome], ?_⟩
      rw [Scheduler.fire, if_pos hvacant, houtcome,
        show Ground.restore a t.world t.pos t.content = _ from hrestore]
    · have houtcome : a.outcomeOf t = .restored := by simp [outcomeOf, hmaterial, hrefuses]
      obtain ⟨signals, hsignal⟩ := signal_eq
        { a with worlds := a.worlds.insert t.world (w.putBack t) } t.world t.pos
      refine Or.inr ⟨houtcome, w, signals, hw, ?_⟩
      rw [Scheduler.fire, if_pos hvacant,
        show Ground.restore a t.world t.pos t.content = _ from hrestore]
      exact congrArg (Prod.mk Outcome.restored) hsignal
  · have houtcome : a.outcomeOf t = .skipped :=
      if_pos (by simpa using (show ¬ a.isVacantMaterial (a.materialAt t.world t.pos) = true
        from hvacant))
    exact Or.inl ⟨by simp [houtcome], by rw [houtcome]; exact if_neg hvacant⟩

theorem fire_fst (a : Atlas) (t : Task) : (Scheduler.fire a t).1 = a.outcomeOf t := by
  rcases a.fire_cases t with ⟨-, hfire⟩ | ⟨houtcome, w, signals, -, hfire⟩
  · rw [hfire]
  · rw [hfire, houtcome]

theorem sameRules_fire (a : Atlas) (t : Task) : a.SameRules (Scheduler.fire a t).2 := by
  rcases a.fire_cases t with ⟨-, hfire⟩ | ⟨-, w, signals, hw, hfire⟩
  · rw [hfire]
    exact SameRules.refl a
  · rw [hfire]
    refine ⟨fun name => ?_, rfl, rfl, rfl⟩
    show (({ a with worlds := a.worlds.insert t.world (w.putBack t) } : Atlas).world? name).map _ = _
    rw [world?_insert]
    split_ifs with hname
    · rw [← hname, hw]
      rfl
    · rfl

/-- Firing a task changes at most what its cell holds. -/
theorem contentAt?_fire (a : Atlas) (t : Task) (name : WorldName) (pos : Pos) :
    (Scheduler.fire a t).2.contentAt? name pos
      = if t.cell = (name, pos) then a.contentAfter t else a.contentAt? name pos := by
  unfold contentAfter
  rcases a.fire_cases t with ⟨houtcome, hfire⟩ | ⟨houtcome, w, signals, hw, hfire⟩
  · rw [hfire, if_neg houtcome]
    split_ifs with hcell
    · obtain ⟨rfl, rfl⟩ := Prod.mk.inj hcell
      rfl
    · rfl
  · rw [hfire, if_pos houtcome]
    show ({ a with worlds := a.worlds.insert t.world (w.putBack t) } : Atlas).contentAt? name pos = _
    rw [contentAt?_insert, World.getElem?_putBack]
    by_cases hname : t.world = name
    · subst hname
      simp [Task.cell, contentAt?, hw]
    · simp [Task.cell, hname]

/-- A task that changes its cell finds it vacant and is restored. -/
theorem restored_of_contentAfter_ne {a : Atlas} {t : Task}
    (h : a.contentAfter t ≠ a.contentAt? t.world t.pos) :
    a.isVacantMaterial (a.materialAt t.world t.pos) = true ∧ a.contentAfter t = t.restored := by
  unfold contentAfter at h ⊢
  split_ifs at h ⊢ with houtcome
  · refine ⟨?_, rfl⟩
    unfold outcomeOf at houtcome
    split_ifs at houtcome with hvacant
    simpa using hvacant
  · exact absurd rfl h

/-! ## Firing tasks one after the other -/

/-- The atlas after the given tasks have fired. -/
def fireAll (a : Atlas) (ts : List Task) : Atlas := ts.foldl (fun a t => (Scheduler.fire a t).2) a

theorem sameRules_fireAll (a : Atlas) (ts : List Task) : a.SameRules (a.fireAll ts) := by
  induction ts generalizing a with
  | nil => exact SameRules.refl a
  | cons t rest ih => exact (a.sameRules_fire t).trans (ih _)

/-- A cell that no task is for holds what it held. -/
theorem contentAt?_fireAll_of_not_mem (a : Atlas) {ts : List Task} {name : WorldName} {pos : Pos}
    (h : (name, pos) ∉ ts.map Task.cell) :
    (a.fireAll ts).contentAt? name pos = a.contentAt? name pos := by
  induction ts generalizing a with
  | nil => rfl
  | cons t rest ih =>
      rw [List.map_cons, List.mem_cons, not_or] at h
      refine (ih _ h.2).trans ?_
      rw [contentAt?_fire, if_neg (Ne.symm h.1)]

section Distinct

variable {a : Atlas} {t u : Task} {rest ts : List Task}

theorem contentAt?_fire_other (h : t.cell ≠ u.cell) :
    (Scheduler.fire a t).2.contentAt? u.world u.pos = a.contentAt? u.world u.pos := by
  rw [contentAt?_fire]
  exact if_neg h

/-- A task with another cell comes out as it would have before. -/
theorem outcomeOf_fire (h : t.cell ≠ u.cell) :
    (Scheduler.fire a t).2.outcomeOf u = a.outcomeOf u :=
  (a.sameRules_fire t).outcomeOf (contentAt?_fire_other h)

theorem contentAfter_fire (h : t.cell ≠ u.cell) :
    (Scheduler.fire a t).2.contentAfter u = a.contentAfter u := by
  rw [contentAfter, contentAfter, outcomeOf_fire h, contentAt?_fire_other h]

/-- Of tasks with different cells each comes out as it would alone. -/
theorem map_shots (s : Scheduler) (h : (ts.map Task.cell).Nodup) :
    (s.shots a ts).map (fun x => (x.task, x.outcome)) = ts.map fun t => (t, a.outcomeOf t) := by
  induction ts generalizing s a with
  | nil => rfl
  | cons t rest ih =>
      rw [List.map_cons, List.nodup_cons] at h
      rw [Scheduler.shots, List.map_cons, List.map_cons, ih _ h.2, fire_fst]
      -- the first task has not touched the cell of any later one
      refine congrArg _ (List.map_congr_left fun u hu => ?_)
      have hne : t.cell ≠ u.cell := fun heq => h.1 (List.mem_map.2 ⟨u, hu, heq.symm⟩)
      rw [outcomeOf_fire hne]

/-- Of tasks with different cells each leaves on its cell what it would alone. -/
theorem contentAt?_fireAll_of_mem (h : (ts.map Task.cell).Nodup) (ht : t ∈ ts) :
    (a.fireAll ts).contentAt? t.world t.pos = a.contentAfter t := by
  induction ts generalizing a with
  | nil => exact absurd ht List.not_mem_nil
  | cons u rest ih =>
      rw [List.map_cons, List.nodup_cons] at h
      rcases List.mem_cons.1 ht with rfl | ht
      · refine (contentAt?_fireAll_of_not_mem _ h.1).trans ?_
        rw [contentAt?_fire]
        exact if_pos rfl
      · refine (ih h.2 ht).trans (contentAfter_fire fun heq => h.1 ?_)
        exact heq ▸ List.mem_map_of_mem ht

/-- What tasks with different cells change are vacant cells of theirs, which they restore. -/
theorem restored_of_contentAt?_fireAll_ne (h : (ts.map Task.cell).Nodup) {name : WorldName}
    {pos : Pos} (hne : (a.fireAll ts).contentAt? name pos ≠ a.contentAt? name pos) :
    ∃ t ∈ ts, t.cell = (name, pos) ∧ a.isVacantMaterial (a.materialAt name pos) = true ∧
      (a.fireAll ts).contentAt? name pos = t.restored := by
  have hmem : (name, pos) ∈ ts.map Task.cell := by
    by_contra hnot
    exact hne (a.contentAt?_fireAll_of_not_mem hnot)
  obtain ⟨t, ht, hcell⟩ := List.mem_map.1 hmem
  obtain ⟨rfl, rfl⟩ := Prod.mk.inj hcell
  have hafter := contentAt?_fireAll_of_mem (a := a) h ht
  rw [hafter] at hne ⊢
  exact ⟨t, ht, rfl, restored_of_contentAfter_ne hne⟩

end Distinct

end Atlas

end Mend
