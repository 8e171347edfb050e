import Mathlib.Data.List.Nodup
import Mathlib.Data.List.Perm.Basic
import Mend.Intake.Sift
import Mend.Proofs.Queue.Waiting

set_option autoImplicit false

/-! # What sifting takes in, and the tasks that come of it

`Pending.Holds` says that a pending set is the set listed by some cells: every operation on the
set is described by what it does to the list. Sifting then extends the list by exactly the cells
it takes in (`Sifted.holds_ofCells`), so these are distinct, were not pending before, and are
pending afterwards; no separate bookkeeping of the counter is needed. A cell that is pending is
left out, and so is every cell once the cap is reached. Either stays so until a cell is removed, so
sifting the same cells again takes in nothing (`Sifted.taken_eq_nil_iff`,
`Sifted.bars_ofCells`).

`layersOf` spreads the cells over layers without losing or inventing one
(`tasks_layersOf`). -/

namespace Mend

/-! ## The pending set as a list of cells -/

namespace Pending

/-- Removing a pending cell takes it out of the set of its world. A set that is emptied loses its
    entry, which reads the same. -/
theorem cellsOf_remove {p : Pending} {w : WorldName} {a : Pos} (h : p.contains w a = true)
    (v : WorldName) :
    (p.remove w a).2.cellsOf v = if w = v then (p.cellsOf w).erase a else p.cellsOf v := by
  rw [remove, if_pos h]
  generalize (p.cellsOf w).erase a = rest
  by_cases he : rest = ∅
  · by_cases hv : w = v
    · simp [cellsOf, he, hv]
    · simp [cellsOf, he, Std.ExtTreeMap.getElem?_erase, hv]
  · by_cases hv : w = v
    · simp [cellsOf, he, hv]
    · simp [cellsOf, he, Std.ExtTreeMap.getElem?_insert, hv]

theorem contains_remove (p : Pending) (w v : WorldName) (a b : Pos) :
    (p.remove w a).2.contains v b = (p.contains v b && !decide (w = v ∧ a = b)) := by
  by_cases hp : p.contains w a = true
  · rw [contains, cellsOf_remove hp, contains]
    by_cases hw : w = v
    · subst hw
      by_cases hab : a = b <;> simp [Std.ExtTreeSet.contains_erase, hab]
    · simp [hw]
  · rw [remove, if_neg hp]
    by_cases hk : w = v ∧ a = b
    · obtain ⟨rfl, rfl⟩ := hk
      simp [hp]
    · simp [hk]

/-- The set has the listed cells as its elements, and none of them is listed twice. -/
structure Holds (p : Pending) (cells : List (WorldName × Pos)) : Prop where
  nodup : cells.Nodup
  contains_iff : ∀ w a, p.contains w a = true ↔ (w, a) ∈ cells
  size_eq : p.size = cells.length

theorem holds_empty : empty.Holds [] where
  nodup := List.nodup_nil
  contains_iff w a := by simp
  size_eq := rfl

variable {p : Pending} {cells : List (WorldName × Pos)} {w : WorldName} {a : Pos}

theorem Holds.perm {cells' : List (WorldName × Pos)} (h : p.Holds cells)
    (hperm : cells.Perm cells') : p.Holds cells' where
  nodup := hperm.nodup_iff.1 h.nodup
  contains_iff v b := (h.contains_iff v b).trans hperm.mem_iff
  size_eq := h.size_eq.trans hperm.length_eq

theorem Holds.insert (h : p.Holds cells) (hnew : p.contains w a = false) :
    (p.insert w a).2.Holds (cells ++ [(w, a)]) where
  nodup := by
    have hmem : (w, a) ∉ cells := fun hm => by
      rw [(h.contains_iff w a).2 hm] at hnew
      exact absurd hnew (by decide)
    exact (List.nodup_cons.2 ⟨hmem, h.nodup⟩).perm (List.perm_append_singleton _ _).symm
  contains_iff v b := by
    rw [contains_insert, Bool.or_eq_true, decide_eq_true_eq, h.contains_iff, List.mem_append,
      List.mem_singleton, Prod.mk.injEq, or_comm]
    exact or_congr_right ⟨fun ⟨e, e'⟩ => ⟨e.symm, e'.symm⟩, fun ⟨e, e'⟩ => ⟨e.symm, e'.symm⟩⟩
  size_eq := by
    rw [List.length_append, List.length_singleton, ← h.size_eq, Pending.insert, if_neg]
    rw [hnew]
    exact Bool.false_ne_true

theorem Holds.remove (h : p.Holds ((w, a) :: cells)) : (p.remove w a).2.Holds cells where
  nodup := (List.nodup_cons.1 h.nodup).2
  contains_iff v b := by
    have hmem := (List.nodup_cons.1 h.nodup).1
    rw [contains_remove, Bool.and_eq_true, h.contains_iff, List.mem_cons, Prod.mk.injEq,
      Bool.not_eq_true', decide_eq_false_iff_not]
    constructor
    · rintro ⟨⟨rfl, rfl⟩ | hm, hne⟩
      · exact absurd ⟨rfl, rfl⟩ hne
      · exact hm
    · intro hm
      refine ⟨Or.inr hm, ?_⟩
      rintro ⟨rfl, rfl⟩
      exact hmem hm
  size_eq := by
    have hin : p.contains w a = true := (h.contains_iff w a).2 List.mem_cons_self
    have hsize : p.size = cells.length + 1 := h.size_eq
    rw [Pending.remove, if_pos hin]
    show p.size - 1 = cells.length
    omega

/-- The cells that one set holds beyond another are distinct and new to it. -/
theorem Holds.beyond {p' : Pending} {new : List (WorldName × Pos)} (h : p.Holds cells)
    (h' : p'.Holds (cells ++ new)) : new.Nodup ∧ (∀ c ∈ new, p.contains c.1 c.2 = false) ∧
      (∀ v b, p'.contains v b = true ↔ p.contains v b = true ∨ (v, b) ∈ new) ∧
      p'.size = p.size + new.length := by
  obtain ⟨-, hnodup, hdisjoint⟩ := List.nodup_append.1 h'.nodup
  refine ⟨hnodup, fun c hc => ?_, fun v b => ?_, ?_⟩
  · rw [Bool.eq_false_iff]
    intro hpend
    exact hdisjoint c ((h.contains_iff _ _).1 hpend) c hc rfl
  · rw [h'.contains_iff, h.contains_iff, List.mem_append]
  · rw [h'.size_eq, h.size_eq, List.length_append]

/-- No cell at the position can be taken in: it is pending, or the cap is reached. -/
def Bars (p : Pending) (cap : Option Nat) (w : WorldName) (a : Pos) : Prop :=
  p.contains w a = true ∨ p.isFull cap = true

theorem size_insert_of_fresh (h : p.contains w a = false) :
    (p.insert w a).2.size = p.size + 1 := by
  simp [Pending.insert, h]

theorem isFull_insert {cap : Option Nat} (h : p.isFull cap = true) (w : WorldName) (a : Pos) :
    (p.insert w a).2.isFull cap = true := by
  cases cap with
  | none => cases h
  | some limit =>
      have hfull : limit ≤ p.size := by simpa [isFull] using h
      cases hp : p.contains w a with
      | true => simpa [Pending.insert, hp] using h
      | false => simp only [isFull, size_insert_of_fresh hp, decide_eq_true_eq]; omega

/-- What is barred stays so as more cells become pending. -/
theorem Bars.insert {cap : Option Nat} {v : WorldName} {b : Pos} (h : p.Bars cap v b)
    (w : WorldName) (a : Pos) : (p.insert w a).2.Bars cap v b := by
  rcases h with hin | hfull
  · left
    rw [contains_insert, hin, Bool.or_true]
  · right
    exact isFull_insert hfull w a

theorem size_remove_le (p : Pending) (w : WorldName) (a : Pos) :
    (p.remove w a).2.size ≤ p.size := by
  unfold remove
  split_ifs
  · exact Nat.sub_le _ _
  · exact Nat.le_refl _

end Pending

/-! ## Sifting -/

namespace Sifted

variable {w : WorldName} {cap : Option Nat}

/-- One step either leaves the pending set and the cells taken in alone, as the cell is barred, or
    takes in a cell that is not. -/
theorem step_cases (s : Sifted) (p : Pending) (c : LostCell) :
    (p.Bars cap w c.pos ∧ (step w cap (s, p) c).1.taken = s.taken ∧
      (step w cap (s, p) c).2 = p) ∨
    ((p.contains w c.pos = false ∧ p.isFull cap = false) ∧
      (step w cap (s, p) c).1.taken = c :: s.taken ∧
      (step w cap (s, p) c).2 = (p.insert w c.pos).2) := by
  unfold step
  by_cases hpend : p.contains w c.pos = true
  · exact Or.inl (by simp [Pending.Bars, hpend])
  · by_cases hfull : p.isFull cap = true
    · exact Or.inl (by simp [Pending.Bars, hpend, hfull])
    · exact Or.inr (by simp [hpend, hfull])

theorem step_of_pending {s : Sifted} {p : Pending} {c : LostCell}
    (h : p.contains w c.pos = true) :
    step w cap (s, p) c = ({ s with alreadyPending := s.alreadyPending + 1 }, p) :=
  if_pos h

theorem step_of_full {s : Sifted} {p : Pending} {c : LostCell}
    (hpend : p.contains w c.pos = false) (hfull : p.isFull cap = true) :
    step w cap (s, p) c = ({ s with overCap := s.overCap + 1 }, p) := by
  simp [step, hpend, hfull]

theorem step_of_room {s : Sifted} {p : Pending} {c : LostCell}
    (hpend : p.contains w c.pos = false) (hroom : p.isFull cap = false) :
    step w cap (s, p) c = ({ s with taken := c :: s.taken }, (p.insert w c.pos).2) := by
  simp [step, hpend, hroom]

theorem step_of_fresh {s : Sifted} {p : Pending} {c : LostCell}
    (h : p.contains w c.pos = false) :
    step w none (s, p) c = ({ s with taken := c :: s.taken }, (p.insert w c.pos).2) :=
  step_of_room h rfl

/-- Sifting some cells after others takes in a sublist of them on top of those, and extends the
    cells listed as pending by that sublist. -/
theorem foldl_step (cells : List LostCell) (s : Sifted) (p : Pending) :
    ∃ new : List LostCell, new.Sublist cells ∧
      (cells.foldl (step w cap) (s, p)).1.taken = new.reverse ++ s.taken ∧
      (new = [] → (cells.foldl (step w cap) (s, p)).2 = p) ∧
      ∀ listed, p.Holds listed →
        (cells.foldl (step w cap) (s, p)).2.Holds (listed ++ new.map fun c => (w, c.pos)) := by
  induction cells generalizing s p with
  | nil => exact ⟨[], .slnil, rfl, fun _ => rfl, fun listed h => by simpa using h⟩
  | cons c rest ih =>
      rw [List.foldl_cons]
      have hcases := @step_cases w cap s p c
      generalize step w cap (s, p) c = r at hcases
      obtain ⟨s', p'⟩ := r
      obtain ⟨new, hsub, htaken, hnil, hholds⟩ := ih s' p'
      rcases hcases with ⟨-, hs, rfl⟩ | ⟨⟨hfresh, -⟩, hs, rfl⟩
      · exact ⟨new, hsub.cons c, by rw [htaken, hs], hnil, hholds⟩
      · refine ⟨c :: new, hsub.cons_cons c, ?_, fun h => absurd h (List.cons_ne_nil c new),
          fun listed h => ?_⟩
        · rw [htaken, hs, List.reverse_cons, List.append_assoc, List.singleton_append]
        · have h' := hholds _ (h.insert hfresh)
          rwa [List.append_assoc, List.singleton_append] at h'

/-- A cell that is sifted is barred from then on. -/
theorem bars_step_self (s : Sifted) (p : Pending) (c : LostCell) :
    (step w cap (s, p) c).2.Bars cap w c.pos := by
  rcases @step_cases w cap s p c with ⟨hbarred, -, heq⟩ | ⟨-, -, heq⟩ <;> rw [heq]
  · exact hbarred
  · left
    simp [Pending.contains_insert]

theorem bars_step {s : Sifted} {p : Pending} {v : WorldName} {a : Pos} (h : p.Bars cap v a)
    (c : LostCell) : (step w cap (s, p) c).2.Bars cap v a := by
  rcases @step_cases w cap s p c with ⟨-, -, heq⟩ | ⟨-, -, heq⟩ <;> rw [heq]
  · exact h
  · exact h.insert w c.pos

theorem step_of_barred {s : Sifted} {p : Pending} {c : LostCell} (h : p.Bars cap w c.pos) :
    (step w cap (s, p) c).1.taken = s.taken ∧ (step w cap (s, p) c).2 = p := by
  rcases @step_cases w cap s p c with ⟨-, hleft⟩ | ⟨⟨hfresh, hroom⟩, -⟩
  · exact hleft
  · rcases h with hpend | hfull
    · rw [hfresh] at hpend
      cases hpend
    · rw [hroom] at hfull
      cases hfull

/-- Sifting barred cells takes in nothing. -/
theorem foldl_step_of_barred (cells : List LostCell) (s : Sifted) (p : Pending)
    (h : ∀ c ∈ cells, p.Bars cap w c.pos) :
    (cells.foldl (step w cap) (s, p)).1.taken = s.taken := by
  induction cells generalizing s p with
  | nil => rfl
  | cons c rest ih =>
      rw [List.forall_mem_cons] at h
      obtain ⟨htaken, hpending⟩ := @step_of_barred w cap s p c h.1
      have hrest := ih (step w cap (s, p) c).1 (step w cap (s, p) c).2 (hpending.symm ▸ h.2)
      rw [List.foldl_cons]
      exact hrest.trans htaken

/-- Once some cells were sifted, all of them are barred, besides what was. -/
theorem bars_foldl_step (cells : List LostCell) (s : Sifted) (p : Pending) {v : WorldName}
    {a : Pos} (h : p.Bars cap v a ∨ w = v ∧ a ∈ cells.map LostCell.pos) :
    (cells.foldl (step w cap) (s, p)).2.Bars cap v a := by
  induction cells generalizing s p with
  | nil => simpa using h
  | cons c rest ih =>
      rw [List.foldl_cons]
      refine ih (step w cap (s, p) c).1 (step w cap (s, p) c).2 ?_
      rcases h with hbarred | ⟨rfl, hmem⟩
      · exact Or.inl (bars_step hbarred c)
      · rcases List.mem_cons.1 hmem with rfl | hmem
        · exact Or.inl (bars_step_self s p c)
        · exact Or.inr ⟨rfl, hmem⟩

/-- Sifting takes in no more cells than the cap allows. -/
theorem size_foldl_step_le (cells : List LostCell) (s : Sifted) {p : Pending} {limit : Nat}
    (h : p.size ≤ limit) : (cells.foldl (step w (some limit)) (s, p)).2.size ≤ limit := by
  induction cells generalizing s p with
  | nil => exact h
  | cons c rest ih =>
      rw [List.foldl_cons]
      refine ih (step w (some limit) (s, p) c).1 (p := (step w (some limit) (s, p) c).2) ?_
      rcases @step_cases w (some limit) s p c with
        ⟨-, -, heq⟩ | ⟨⟨hfresh, hroom⟩, -, heq⟩ <;> rw [heq]
      · exact h
      · have hlt : p.size < limit := by simpa [Pending.isFull] using hroom
        rw [Pending.size_insert_of_fresh hfresh]
        exact hlt

/-- Without a cap every cell that is not pending and stands once in the list is taken in. -/
theorem foldl_step_all (cells : List LostCell) (s : Sifted) (p : Pending)
    (hnodup : (cells.map LostCell.pos).Nodup)
    (hfresh : ∀ c ∈ cells, p.contains w c.pos = false) :
    (cells.foldl (step w none) (s, p)).1.taken = cells.reverse ++ s.taken := by
  induction cells generalizing s p with
  | nil => rfl
  | cons c rest ih =>
      rw [List.map_cons, List.nodup_cons] at hnodup
      rw [List.foldl_cons, step_of_fresh (hfresh c List.mem_cons_self), ih _ _ hnodup.2]
      · rw [List.reverse_cons, List.append_assoc, List.singleton_append]
      · intro c' hc'
        have hne : c.pos ≠ c'.pos := fun e => hnodup.1 (e ▸ List.mem_map_of_mem hc')
        rw [Pending.contains_insert, hfresh c' (List.mem_cons_of_mem _ hc')]
        simp [hne]

/-- Without a cap, what sifting takes depends only on which of the sifted cells are pending. -/
theorem foldl_step_congr (cells : List LostCell) (s : Sifted) {p p' : Pending}
    (h : ∀ c ∈ cells, p'.contains w c.pos = p.contains w c.pos) :
    (cells.foldl (step w none) (s, p')).1 = (cells.foldl (step w none) (s, p)).1 := by
  induction cells generalizing s p p' with
  | nil => rfl
  | cons c rest ih =>
      rw [List.forall_mem_cons] at h
      rw [List.foldl_cons, List.foldl_cons]
      cases hpend : p.contains w c.pos with
      | true =>
          rw [step_of_pending hpend, step_of_pending (h.1.trans hpend)]
          exact ih _ h.2
      | false =>
          rw [step_of_fresh hpend, step_of_fresh (h.1.trans hpend)]
          refine ih _ fun c' hc' => ?_
          rw [Pending.contains_insert, Pending.contains_insert, h.2 c' hc']

/-- Without a cap, all cells that were sifted are pending afterwards, besides those that were. -/
theorem contains_foldl_step (cells : List LostCell) (s : Sifted) (p : Pending) (v : WorldName)
    (a : Pos) : (cells.foldl (step w none) (s, p)).2.contains v a
      = (p.contains v a || decide (w = v ∧ a ∈ cells.map LostCell.pos)) := by
  induction cells generalizing s p with
  | nil => simp
  | cons c rest ih =>
      have hstep : (step w none (s, p) c).2.contains v a
          = (p.contains v a || decide (w = v ∧ c.pos = a)) := by
        cases hpend : p.contains w c.pos with
        | true =>
            rw [step_of_pending hpend]
            by_cases hcell : w = v ∧ c.pos = a
            · obtain ⟨rfl, rfl⟩ := hcell
              simp [hpend]
            · simp [hcell]
        | false => rw [step_of_fresh hpend, Pending.contains_insert, Bool.or_comm]
      rw [List.foldl_cons, ih, hstep, Bool.or_assoc, ← Bool.decide_or]
      congr 1
      rw [decide_eq_decide, ← and_or_left, List.map_cons, List.mem_cons, @eq_comm _ a]

variable (w) (cells : List LostCell) (p : Pending) (cap)

/-- The cells taken in come from the given list, in its order. -/
theorem taken_sublist : (ofCells w cells p cap).1.taken.Sublist cells := by
  obtain ⟨new, hsub, htaken, -, -⟩ := @foldl_step w cap cells nothing p
  show (List.reverse _).Sublist cells
  rw [htaken]
  simpa [nothing] using hsub

/-- Where no cell is taken in, the pending set stays as it was. -/
theorem pending_of_taken_nil (h : (ofCells w cells p cap).1.taken = []) :
    (ofCells w cells p cap).2 = p := by
  obtain ⟨new, -, htaken, hnil, -⟩ := @foldl_step w cap cells nothing p
  refine hnil ?_
  have h' : (new.reverse ++ nothing.taken).reverse = [] := htaken ▸ h
  simpa [nothing] using h'

/-- All cells that were sifted are barred afterwards. -/
theorem bars_ofCells {c : LostCell} (hc : c ∈ cells) :
    (ofCells w cells p cap).2.Bars cap w c.pos :=
  bars_foldl_step cells nothing p (Or.inr ⟨rfl, List.mem_map_of_mem hc⟩)

/-- Sifting takes in nothing just where all of the cells are barred. -/
theorem taken_eq_nil_iff :
    (ofCells w cells p cap).1.taken = [] ↔ ∀ c ∈ cells, p.Bars cap w c.pos := by
  constructor
  · intro hnil c hc
    have hbarred := bars_ofCells w cap cells p hc
    rwa [pending_of_taken_nil w cap cells p hnil] at hbarred
  · intro hbarred
    show List.reverse _ = []
    rw [foldl_step_of_barred cells nothing p hbarred]
    rfl

variable {p}

/-- The cells taken in become pending besides those that were. -/
theorem holds_ofCells {listed : List (WorldName × Pos)} (h : p.Holds listed) :
    (ofCells w cells p cap).2.Holds
      (listed ++ (ofCells w cells p cap).1.taken.map fun c => (w, c.pos)) := by
  obtain ⟨new, -, htaken, -, hholds⟩ := @foldl_step w cap cells nothing p
  have h' : (ofCells w cells p cap).1.taken = new := by
    show (List.reverse _) = new
    rw [htaken]
    simp [nothing]
  rw [h']
  exact hholds listed h

/-- Without a cap, distinct cells none of which is pending are all taken in. -/
theorem taken_eq_self {cells : List LostCell} (hnodup : (cells.map LostCell.pos).Nodup)
    (hfresh : ∀ c ∈ cells, p.contains w c.pos = false) :
    (ofCells w cells p none).1.taken = cells := by
  show (List.reverse _) = cells
  rw [foldl_step_all cells nothing p hnodup hfresh]
  simp [nothing]

end Sifted

/-! ## Tasks in layers -/

/-- The lowest elevation is that of a cell, and no cell is below it. -/
theorem lowestElevation?_spec {cells : List LostCell} {base : Coord}
    (h : lowestElevation? cells = some base) :
    (∀ c ∈ cells, base ≤ c.pos.y) ∧ ∃ c ∈ cells, c.pos.y = base := by
  induction cells generalizing base with
  | nil => cases h
  | cons c rest ih =>
      unfold lowestElevation? at h
      split at h
      · next hnone =>
          obtain rfl := Option.some.inj h
          simp [lowestElevation?_eq_none_iff.1 hnone, Coord.le_def]
      · next y hrest =>
          obtain ⟨hleast, low, hlow, rfl⟩ := ih hrest
          obtain rfl := Option.some.inj h
          split_ifs with hle
          · refine ⟨List.forall_mem_cons.2 ⟨Coord.le_refl _, fun c' hc' => ?_⟩,
              c, List.mem_cons_self, rfl⟩
            exact Coord.le_trans hle (hleast c' hc')
          · refine ⟨List.forall_mem_cons.2 ⟨?_, hleast⟩, low, List.mem_cons_of_mem _ hlow, rfl⟩
            exact Coord.le_def.2 (Int.le_of_lt (Int.not_le.1 hle))

/-- The lost cell that a task is for. -/
def Task.lostCell (t : Task) : LostCell := ⟨t.pos, t.content, t.provenance⟩

/-- Two elevations are never so far apart that a height is cut off. -/
theorem LostCell.height_task (id : DamageId) (w : WorldName) {c : LostCell} {base : Coord}
    (h : base ≤ c.pos.y) : ((c.task id w base).height.val : Int) = c.pos.y.val - base.val := by
  have hle := Coord.le_def.1 h
  have hleast := base.least_le
  have hgreatest := c.pos.y.le_greatest
  show ((min (c.pos.y.val - base.val).natAbs 4294967295 : Nat) : Int) = c.pos.y.val - base.val
  omega

/-- Spreading cells over layers one by one adds one task for each of them. -/
theorem tasks_foldl_insertInto {α : Type} (elevation : α → Coord) (task : α → Task) (cells : List α)
    (ls : List Layer) :
    ((cells.foldl (fun ls c => Layer.insertInto ⟨elevation c, [task c]⟩ ls) ls).flatMap
      Layer.tasks).Perm (ls.flatMap Layer.tasks ++ cells.map task) := by
  induction cells generalizing ls with
  | nil => simp
  | cons c rest ih =>
      rw [List.foldl_cons, List.map_cons]
      refine (ih _).trans ?_
      have h := (Layer.tasks_insertInto ⟨elevation c, [task c]⟩ ls).append_right (rest.map task)
      rwa [List.append_assoc, List.singleton_append] at h

/-- The layers hold one task for each cell, whose height is measured from the lowest. -/
theorem tasks_layersOf {id : DamageId} {w : WorldName} {cells : List LostCell} {base : Coord}
    (h : lowestElevation? cells = some base) :
    ((layersOf id w cells).1.flatMap Layer.tasks).Perm (cells.map (·.task id w base)) := by
  simp only [layersOf, h]
  exact tasks_foldl_insertInto (·.pos.y) (·.task id w base) cells []

theorem layersOf_snd (id : DamageId) (w : WorldName) (cells : List LostCell) :
    (layersOf id w cells).2 = lowestElevation? cells := by
  unfold layersOf
  split <;> simp_all

end Mend
