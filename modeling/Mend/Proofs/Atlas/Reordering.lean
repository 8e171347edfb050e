import Mathlib.Data.List.Perm.Basic
import Mend.Proofs.Atlas.Firing

set_option autoImplicit false

/-! # Firing tasks in another order

Tasks with different cells do not get in each other's way, so the order in which they fire shows
only in the order of the signals that they give. Two atlases are *reordered* if they are the same
but for that order. Every operation keeps reordered atlases reordered and answers the same on both,
and so does firing the same tasks with different cells, in one order on one atlas and in another
order on the other (`Atlas.Reordered.fireAll`). -/

namespace Mend

namespace Atlas

variable {a b : Atlas} {t : Task} {ts ts' : List Task}

/-! ## The signals that tasks give -/

/-- The signal that a task gives if it fires now. -/
def signalOf (a : Atlas) (t : Task) : Option Signal :=
  if a.muted = false ∧ a.outcomeOf t = .restored then some ⟨t.world, t.pos, t.content.material⟩
  else none

/-- What stands on a cell where content was put back is of the material of that content. -/
theorem materialAt_putBack (a : Atlas) (t : Task) (w : World) :
    ({ a with worlds := a.worlds.insert t.world (w.putBack t) } : Atlas).materialAt t.world t.pos
      = t.content.material := by
  rw [materialAt, contentAt?_insert, if_pos rfl, World.getElem?_putBack, if_pos rfl, Task.restored]
  split_ifs with hair
  · exact hair.symm
  · rfl

/-- A task that is restored is put back on its cell, and then signalled. -/
theorem fire_of_restored (h : a.outcomeOf t = .restored) :
    ∃ w : World, Scheduler.fire a t = (.restored,
      (({ a with worlds := a.worlds.insert t.world (w.putBack t) } : Atlas).signal t.world
        t.pos).2) := by
  unfold outcomeOf at h
  split_ifs at h with hvacant hrefuses
  rcases a.restore_cases t with ⟨hrefused, -⟩ | ⟨-, w, -, hrestore⟩
  · exact absurd hrefused hrefuses
  · refine ⟨w, ?_⟩
    have hempty : Ground.isVacant a t.world t.pos = true := by
      show a.isVacantMaterial (a.materialAt t.world t.pos) = true
      simpa using hvacant
    rw [Scheduler.fire, if_pos hempty,
      show Ground.restore a t.world t.pos t.content = _ from hrestore]
    rfl

theorem signals_fire (a : Atlas) (t : Task) :
    (Scheduler.fire a t).2.signals.toList = a.signals.toList ++ (a.signalOf t).toList := by
  unfold signalOf
  by_cases hrestored : a.outcomeOf t = .restored
  · obtain ⟨w, hfire⟩ := fire_of_restored hrestored
    have hmaterial := a.materialAt_putBack t w
    rw [hfire, signal]
    cases hmuted : a.muted with
    | true => simp
    | false => simpa [hmuted, hrestored] using hmaterial
  · rcases a.fire_cases t with ⟨-, hfire⟩ | ⟨houtcome, -⟩
    · rw [hfire, if_neg fun h => hrestored h.2]
      exact (List.append_nil _).symm
    · exact absurd houtcome hrestored

/-- Of tasks with different cells each gives the signal that it would give alone. -/
theorem signals_fireAll (a : Atlas) (h : (ts.map Task.cell).Nodup) :
    (a.fireAll ts).signals.toList = a.signals.toList ++ ts.filterMap a.signalOf := by
  induction ts generalizing a with
  | nil => exact (List.append_nil _).symm
  | cons t rest ih =>
      rw [List.map_cons, List.nodup_cons] at h
      have hrest : rest.filterMap (Scheduler.fire a t).2.signalOf = rest.filterMap a.signalOf := by
        refine List.filterMap_congr fun u hu => ?_
        have hne : t.cell ≠ u.cell := fun heq => h.1 (List.mem_map.2 ⟨u, hu, heq.symm⟩)
        rw [signalOf, signalOf, outcomeOf_fire hne, (a.sameRules_fire t).muted]
      have hall := ih (Scheduler.fire a t).2 h.2
      rw [hrest, signals_fire, List.append_assoc] at hall
      refine hall.trans (congrArg _ ?_)
      cases hsignal : a.signalOf t <;> simp [hsignal]

/-- The signals that firing tasks with different cells adds. -/
theorem drop_signals_fireAll (a : Atlas) (h : (ts.map Task.cell).Nodup) :
    (a.fireAll ts).signals.toList.drop a.signals.size = ts.filterMap a.signalOf := by
  rw [signals_fireAll a h, List.drop_left' Array.length_toList]

/-! ## Atlases that differ in their signals -/

/-- Two atlases with the same rules, all of whose cells hold the same, differ at most in their
    signals. -/
theorem SameRules.eq_of_contentAt? (h : a.SameRules b)
    (hcells : ∀ name pos, b.contentAt? name pos = a.contentAt? name pos) :
    b = { a with signals := b.signals } := by
  have hworlds : b.worlds = a.worlds := by
    refine Std.ExtTreeMap.ext_getElem? fun name => ?_
    have hrules := h.worlds name
    have hcontent := hcells name
    simp only [contentAt?] at hcontent
    show b.world? name = a.world? name
    generalize b.world? name = v, a.world? name = w at hrules hcontent
    cases v <;> cases w <;> simp at hrules hcontent ⊢
    next v w =>
      obtain ⟨cells, placed, unloaded⟩ := v
      obtain ⟨rfl, rfl⟩ := hrules
      have heq : cells = w.cells := Std.ExtTreeMap.ext_getElem? hcontent
      rw [heq]
  obtain ⟨worlds, vacant, rejected, signals, muted⟩ := b
  obtain ⟨-, rfl, rfl, rfl⟩ := h
  exact congrArg (Atlas.mk · _ _ _ _) hworlds

/-- The two atlases are the same but for the order of the signals given so far. -/
structure Reordered (a b : Atlas) : Prop where
  rest : b = { a with signals := b.signals }
  signals : b.signals.toList.Perm a.signals.toList

namespace Reordered

theorem refl (a : Atlas) : a.Reordered a := ⟨rfl, List.Perm.refl _⟩

/-- Changing a world does the same to reordered atlases. -/
theorem modifyWorld {α : Type} (h : a.Reordered b) (name : WorldName)
    (f : World → Except AtlasError α × World) :
    (a.modifyWorld name f).2.Reordered (b.modifyWorld name f).2 := by
  obtain ⟨signals, rfl⟩ : ∃ signals, b = { a with signals } := ⟨_, h.rest⟩
  have hperm := h.signals
  unfold Atlas.modifyWorld
  cases hw : a.world? name with
  | none =>
      have hw' : ({ a with signals } : Atlas).world? name = none := hw
      rw [hw']
      exact h
  | some w =>
      have hw' : ({ a with signals } : Atlas).world? name = some w := hw
      rw [hw']
      exact ⟨rfl, h.signals⟩

/-- A blast takes the same cells from reordered atlases. -/
theorem explode (h : a.Reordered b) (name : WorldName) (blast : Blast) :
    (a.explode name blast).2.Reordered (b.explode name blast).2 := by
  have hvacant : b.vacant = a.vacant := by rw [h.rest]
  rw [Atlas.explode, Atlas.explode, hvacant]
  exact h.modifyWorld name _

theorem fillBall (h : a.Reordered b) (name : WorldName) (center : Pos) (radius : Count)
    (material : String) :
    (a.fillBall name center radius material).2.Reordered
      (b.fillBall name center radius material).2 := by
  have hfilled := h.modifyWorld name fun w =>
    w.fill (Content.plain material) (center.ball radius)
  simp only [Atlas.fillBall]
  split <;> rename_i heq <;> rw [heq] at hfilled <;>
    split <;> rename_i heq' <;> rw [heq'] at hfilled <;> exact hfilled

/-- Firing tasks with different cells, on one atlas in one order and on the other in another. -/
theorem fireAll (h : a.Reordered b) (hperm : ts'.Perm ts) (hdistinct : (ts.map Task.cell).Nodup) :
    (a.fireAll ts).Reordered (b.fireAll ts') := by
  have hdistinct' : (ts'.map Task.cell).Nodup := (hperm.map Task.cell).nodup_iff.2 hdistinct
  obtain ⟨signals, rfl⟩ : ∃ signals, b = { a with signals } := ⟨_, h.rest⟩
  have hrules : (a.fireAll ts).SameRules (({ a with signals } : Atlas).fireAll ts') := by
    have hafter := a.sameRules_fireAll ts
    have hafter' := ({ a with signals } : Atlas).sameRules_fireAll ts'
    exact ⟨fun name => (hafter'.worlds name).trans (hafter.worlds name).symm,
      hafter'.vacant.trans hafter.vacant.symm, hafter'.rejected.trans hafter.rejected.symm,
      hafter'.muted.trans hafter.muted.symm⟩
  refine ⟨hrules.eq_of_contentAt? fun name pos => ?_, ?_⟩
  · by_cases hmem : (name, pos) ∈ ts.map Task.cell
    · obtain ⟨t, ht, hcell⟩ := List.mem_map.1 hmem
      obtain ⟨rfl, rfl⟩ := Prod.mk.inj hcell
      rw [contentAt?_fireAll_of_mem hdistinct ht,
        contentAt?_fireAll_of_mem hdistinct' (hperm.mem_iff.2 ht)]
      rfl
    · have hmem' : (name, pos) ∉ ts'.map Task.cell :=
        fun hin => hmem ((hperm.map Task.cell).mem_iff.1 hin)
      rw [contentAt?_fireAll_of_not_mem _ hmem, contentAt?_fireAll_of_not_mem _ hmem']
      rfl
  · rw [signals_fireAll _ hdistinct, signals_fireAll _ hdistinct']
    exact h.signals.append (hperm.filterMap _)

end Reordered

end Atlas

end Mend
