import Mathlib.Data.Finset.Card
import Mathlib.Data.Finset.Union
import Mend.Proofs.Intake.Sifting

set_option autoImplicit false

/-! # Pending cells are a finite set

The pending cells are kept world by world, with their number beside them. `Pending.Is` says which
set of cells this stands for: it has these elements, as many as the number says, and no world is
kept without cells. Every call answers as the same call on the set does and keeps this
(`Pending.Is.respond`), so any list of calls does. Sifting only puts cells in, one by one, so the
cap is compared with the true number of pending cells each time. -/

namespace Mend

/-! ## Calls and answers -/

namespace CellSet

/-- A cell of some world. -/
abbrev Cell := WorldName × Pos

/-- A call on a set of cells. -/
inductive Call where
  | insert (cell : Cell)
  | remove (cell : Cell)
  | contains (cell : Cell)
  | clear
deriving DecidableEq

/-- What a call returns. -/
inductive Answer where
  | yes (b : Bool)
  | count (n : Nat)
deriving DecidableEq

/-- The answers to calls made one after the other, and the state after them. -/
def transcript {σ : Type} (respond : σ → Call → Answer × σ) : σ → List Call → List Answer × σ
  | s, [] => ([], s)
  | s, c :: rest =>
    let answered := respond s c
    let more := transcript respond answered.2 rest
    (answered.1 :: more.1, more.2)

/-- A call on a finite set. Putting a cell in and taking one out say whether the set changed. -/
def respond (s : Finset Cell) : Call → Answer × Finset Cell
  | .insert cell => (.yes (decide (insert cell s ≠ s)), insert cell s)
  | .remove cell => (.yes (decide (s.erase cell ≠ s)), s.erase cell)
  | .contains cell => (.yes (decide (cell ∈ s)), s)
  | .clear => (.count s.card, ∅)

/-- No more cells are put in than calls are made. -/
theorem card_transcript_le (s : Finset Cell) (calls : List Call) :
    (transcript respond s calls).2.card ≤ s.card + calls.length := by
  induction calls generalizing s with
  | nil => exact Nat.le_refl _
  | cons c rest ih =>
      have hstep : (respond s c).2.card ≤ s.card + 1 := by
        cases c with
        | insert cell => exact Finset.card_insert_le cell s
        | remove cell => exact Nat.le_succ_of_le (Finset.card_erase_le)
        | contains cell => exact Nat.le_succ _
        | clear => exact Nat.zero_le _
      calc (transcript respond s (c :: rest)).2.card
          ≤ (respond s c).2.card + rest.length := ih _
        _ ≤ s.card + 1 + rest.length := Nat.add_le_add_right hstep _
        _ = s.card + (c :: rest).length := by rw [List.length_cons]; omega

end CellSet

namespace Pending

open CellSet

/-- A call on the pending cells. -/
def respond (p : Pending) : Call → Answer × Pending
  | .insert cell => ((.yes (p.insert cell.1 cell.2).1), (p.insert cell.1 cell.2).2)
  | .remove cell => ((.yes (p.remove cell.1 cell.2).1), (p.remove cell.1 cell.2).2)
  | .contains cell => (.yes (p.contains cell.1 cell.2), p)
  | .clear => (.count p.clear.1, p.clear.2)

/-! ## The set that pending cells stand for -/

/-- The pending cells are the elements of the set, they are counted right, and no world is kept
    without cells. -/
structure Is (p : Pending) (s : Finset Cell) : Prop where
  contains_iff : ∀ cell : Cell, p.contains cell.1 cell.2 = true ↔ cell ∈ s
  size_eq : p.size = s.card
  inhabited : ∀ (world : WorldName) (kept : Std.ExtTreeSet Pos),
    p.worlds[world]? = some kept → kept ≠ ∅

theorem is_empty : empty.Is ∅ where
  contains_iff cell := by simp
  size_eq := rfl
  inhabited world cells h := by simp [empty] at h

variable {p : Pending} {s : Finset Cell} {cell : Cell}

theorem Is.contains_eq (h : p.Is s) (cell : Cell) :
    p.contains cell.1 cell.2 = decide (cell ∈ s) := by
  rw [Bool.eq_iff_iff, h.contains_iff, decide_eq_true_eq]

theorem insert_fst (p : Pending) (world : WorldName) (pos : Pos) :
    (p.insert world pos).1 = !p.contains world pos := by
  unfold Pending.insert
  split_ifs with h <;> simp [h]

theorem remove_fst (p : Pending) (world : WorldName) (pos : Pos) :
    (p.remove world pos).1 = p.contains world pos := by
  unfold Pending.remove
  split_ifs with h <;> simp [h]

theorem Is.insert (h : p.Is s) (cell : Cell) :
    (p.insert cell.1 cell.2).2.Is (Insert.insert cell s) where
  contains_iff other := by
    rw [contains_insert, Bool.or_eq_true, decide_eq_true_eq, h.contains_iff, Finset.mem_insert,
      ← Prod.ext_iff, eq_comm]
  size_eq := by
    unfold Pending.insert
    split_ifs with hin
    · rw [Finset.insert_eq_of_mem ((h.contains_iff cell).1 hin)]
      exact h.size_eq
    · rw [Finset.card_insert_of_notMem fun hmem => hin ((h.contains_iff cell).2 hmem)]
      exact congrArg (· + 1) h.size_eq
  inhabited world cells hcells := by
    unfold Pending.insert at hcells
    split_ifs at hcells with hin
    · exact h.inhabited world cells hcells
    · rw [Std.ExtTreeMap.getElem?_insert] at hcells
      split_ifs at hcells with hworld
      · cases hcells
        intro hempty
        have hmem : cell.2 ∈ (p.cellsOf cell.1).insert cell.2 := Std.ExtTreeSet.mem_insert_self
        rw [hempty] at hmem
        exact Std.ExtTreeSet.not_mem_empty hmem
      · exact h.inhabited world cells hcells

theorem Is.remove (h : p.Is s) (cell : Cell) : (p.remove cell.1 cell.2).2.Is (s.erase cell) where
  contains_iff other := by
    rw [contains_remove, Bool.and_eq_true, Bool.not_eq_true', decide_eq_false_iff_not,
      h.contains_iff, Finset.mem_erase, ← Prod.ext_iff, and_comm, ne_eq, eq_comm]
  size_eq := by
    unfold Pending.remove
    split_ifs with hin
    · rw [Finset.card_erase_of_mem ((h.contains_iff cell).1 hin)]
      exact congrArg (· - 1) h.size_eq
    · rw [Finset.erase_eq_of_notMem fun hmem => hin ((h.contains_iff cell).2 hmem)]
      exact h.size_eq
  inhabited world cells hcells := by
    unfold Pending.remove at hcells
    split_ifs at hcells with hin
    · -- the world of the cell is dropped with its last cell
      simp only at hcells
      split_ifs at hcells with hlast
      · rw [Std.ExtTreeMap.getElem?_erase] at hcells
        split_ifs at hcells
        exact h.inhabited world cells hcells
      · rw [Std.ExtTreeMap.getElem?_insert] at hcells
        split_ifs at hcells
        · cases hcells
          simpa using hlast
        · exact h.inhabited world cells hcells
    · exact h.inhabited world cells hcells

/-- A call answers as on the set, and keeps the pending cells a set. -/
theorem Is.respond (h : p.Is s) (c : Call) :
    (p.respond c).1 = (CellSet.respond s c).1 ∧ (p.respond c).2.Is (CellSet.respond s c).2 := by
  cases c with
  | insert cell =>
      refine ⟨congrArg Answer.yes ?_, h.insert cell⟩
      rw [insert_fst, h.contains_eq]
      simp
  | remove cell =>
      refine ⟨congrArg Answer.yes ?_, h.remove cell⟩
      rw [remove_fst, h.contains_eq]
      simp
  | contains cell => exact ⟨congrArg Answer.yes (h.contains_eq cell), h⟩
  | clear => exact ⟨congrArg Answer.count h.size_eq, is_empty⟩

theorem Is.transcript (h : p.Is s) (calls : List Call) :
    (CellSet.transcript Pending.respond p calls).1
        = (CellSet.transcript CellSet.respond s calls).1 ∧
      (CellSet.transcript Pending.respond p calls).2.Is
        (CellSet.transcript CellSet.respond s calls).2 := by
  induction calls generalizing p s with
  | nil => exact ⟨rfl, h⟩
  | cons c rest ih =>
      obtain ⟨hanswer, hafter⟩ := h.respond c
      obtain ⟨hanswers, hrest⟩ := ih hafter
      exact ⟨congrArg₂ List.cons hanswer hanswers, hrest⟩

/-! ## The cells that are kept -/

/-- All cells that are kept, world by world. -/
def cells (p : Pending) : List Cell :=
  p.worlds.toList.flatMap fun entry => entry.2.toList.map fun pos => (entry.1, pos)

theorem mem_cells : cell ∈ p.cells ↔ p.contains cell.1 cell.2 = true := by
  rw [cells, List.mem_flatMap, contains, cellsOf]
  constructor
  · rintro ⟨⟨world, kept⟩, hentry, hcell⟩
    obtain ⟨pos, hpos, rfl⟩ := List.mem_map.1 hcell
    rw [Std.ExtTreeMap.mem_toList_iff_getElem?_eq_some.1 hentry]
    exact Std.ExtTreeSet.mem_toList.1 hpos
  · intro hcell
    cases hkept : p.worlds[cell.1]? with
    | none => simp [hkept] at hcell
    | some kept =>
        rw [hkept] at hcell
        exact ⟨(cell.1, kept), Std.ExtTreeMap.mem_toList_iff_getElem?_eq_some.2 hkept,
          List.mem_map.2 ⟨cell.2, Std.ExtTreeSet.mem_toList.2 hcell, rfl⟩⟩

theorem nodup_cells (p : Pending) : p.cells.Nodup := by
  refine List.nodup_flatMap.2 ⟨fun entry _ => ?_, ?_⟩
  · have hkept : entry.2.toList.Nodup := by
      refine Std.ExtTreeSet.distinct_toList.imp fun {a b} hne heq => hne ?_
      rw [heq]
      exact Std.ReflCmp.compare_self
    exact hkept.map fun a b h => congrArg Prod.snd h
  · -- cells of different worlds differ
    refine Std.ExtTreeMap.distinct_keys_toList.imp fun {entry entry'} hne => ?_
    rintro cell hcell hcell'
    obtain ⟨pos, -, rfl⟩ := List.mem_map.1 hcell
    obtain ⟨pos', -, heq⟩ := List.mem_map.1 hcell'
    have hworld : entry'.1 = entry.1 := (Prod.ext_iff.1 heq).1
    refine hne ?_
    rw [hworld]
    exact Std.ReflCmp.compare_self

/-- The cells that are kept are those of the set, each kept once, and as many as are counted. -/
theorem Is.cells_spec (h : p.Is s) :
    p.cells.Nodup ∧ p.cells.toFinset = s ∧ p.size = p.cells.length := by
  have hset : p.cells.toFinset = s := by
    ext cell
    rw [List.mem_toFinset, mem_cells, h.contains_iff]
  refine ⟨nodup_cells p, hset, ?_⟩
  rw [h.size_eq, ← hset, List.toFinset_card_of_nodup (nodup_cells p)]

/-! ## The cap -/

/-- The cap is reached where the set has that many cells. -/
theorem Is.isFull_iff (h : p.Is s) (cap : Option Nat) :
    p.isFull cap = true ↔ ∃ limit, cap = some limit ∧ limit ≤ s.card := by
  cases cap with
  | none => simp [isFull]
  | some limit => simp [isFull, h.size_eq]

/-- Sifting puts the cells that it takes in into the set. -/
theorem Is.foldl_step {world : WorldName} {cap : Option Nat} (front : List LostCell) (r : Sifted)
    (h : p.Is (s ∪ (r.taken.map fun c => (world, c.pos)).toFinset)) :
    let q := front.foldl (Sifted.step world cap) (r, p)
    q.2.Is (s ∪ (q.1.taken.map fun c => (world, c.pos)).toFinset) := by
  induction front generalizing r p with
  | nil => exact h
  | cons c rest ih =>
      rw [List.foldl_cons]
      have hcases := @Sifted.step_cases world cap r p c
      generalize Sifted.step world cap (r, p) c = q at hcases ⊢
      obtain ⟨r', p'⟩ := q
      refine ih r' ?_
      rcases hcases with ⟨-, htaken, rfl⟩ | ⟨-, htaken, rfl⟩
      · rwa [htaken]
      · rw [htaken, List.map_cons, List.toFinset_cons, Finset.union_insert]
        exact h.insert (world, c.pos)

/-! ## The number in 64 bits -/

/-- A call on the pending cells with a number beside them that stops at the largest of 64 bits. -/
def respondCounted (k : Pending × Tick) : Call → Answer × (Pending × Tick)
  | .insert cell =>
    let inserted := k.1.insert cell.1 cell.2
    (.yes inserted.1, inserted.2, if inserted.1 then k.2 + 1 else k.2)
  | .remove cell =>
    let removed := k.1.remove cell.1 cell.2
    (.yes removed.1, removed.2, if removed.1 then k.2 - 1 else k.2)
  | .contains cell => (.yes (k.1.contains cell.1 cell.2), k)
  | .clear => (.count k.2.val, k.1.clear.2, 0)

theorem size_insert (p : Pending) (world : WorldName) (pos : Pos) :
    (p.insert world pos).2.size
      = if (p.insert world pos).1 = true then p.size + 1 else p.size := by
  cases h : p.contains world pos <;> simp [Pending.insert, h]

theorem size_remove (p : Pending) (world : WorldName) (pos : Pos) :
    (p.remove world pos).2.size
      = if (p.remove world pos).1 = true then p.size - 1 else p.size := by
  cases h : p.contains world pos <;> simp [Pending.remove, h]

/-- While the number fits it is the true one. -/
theorem Is.respondCounted {n : Tick} (h : p.Is s) (hn : n.val = s.card) (c : Call)
    (hfits : (CellSet.respond s c).2.card ≤ 18446744073709551615) :
    (Pending.respondCounted (p, n) c).1 = (CellSet.respond s c).1 ∧
      (Pending.respondCounted (p, n) c).2.1.Is (CellSet.respond s c).2 ∧
      (Pending.respondCounted (p, n) c).2.2.val = (CellSet.respond s c).2.card := by
  obtain ⟨hanswer, hafter⟩ := h.respond c
  have hone : (1 : Tick).val = 1 := rfl
  cases c with
  | insert cell =>
      refine ⟨hanswer, hafter, ?_⟩
      have hsize := hafter.size_eq
      rw [Pending.respond, size_insert, h.size_eq, ← hn] at hsize
      show (if (p.insert cell.1 cell.2).1 = true then n + 1 else n).val = _
      split_ifs at hsize ⊢
      · rw [Capped.val_add, hone, hsize]
        exact Nat.min_eq_left hfits
      · exact hsize
  | remove cell =>
      refine ⟨hanswer, hafter, ?_⟩
      have hsize := hafter.size_eq
      rw [Pending.respond, size_remove, h.size_eq, ← hn] at hsize
      show (if (p.remove cell.1 cell.2).1 = true then n - 1 else n).val = _
      split_ifs at hsize ⊢
      · rw [Capped.val_sub, hone, hsize]
      · exact hsize
  | contains cell => exact ⟨hanswer, hafter, hn⟩
  | clear => exact ⟨congrArg Answer.count hn, hafter, rfl⟩

theorem Is.transcriptCounted {n : Tick} (h : p.Is s) (hn : n.val = s.card) (calls : List Call)
    (hfits : ∀ front, front <+: calls →
      (CellSet.transcript CellSet.respond s front).2.card ≤ 18446744073709551615) :
    (CellSet.transcript Pending.respondCounted (p, n) calls).1
        = (CellSet.transcript CellSet.respond s calls).1 ∧
      (CellSet.transcript Pending.respondCounted (p, n) calls).2.2.val
        = (CellSet.transcript CellSet.respond s calls).2.card := by
  induction calls generalizing p n s with
  | nil => exact ⟨rfl, hn⟩
  | cons c rest ih =>
      have hfirst := hfits [c] (List.prefix_append [c] rest)
      obtain ⟨hanswer, hafter, hcount⟩ := h.respondCounted hn c hfirst
      obtain ⟨hanswers, hlast⟩ := ih hafter hcount fun front hfront =>
        hfits (c :: front) (List.cons_prefix_cons.2 ⟨rfl, hfront⟩)
      exact ⟨congrArg₂ List.cons hanswer hanswers, hlast⟩

end Pending

open CellSet in
/-- **The pending cells are a finite set.** Whatever cells were put in, taken out and asked for, and
    however often the pending cells were cleared, every call returned what the same call on a finite
    set returns, and what is kept is that set: the same cells, each kept once, counted right, and no
    world without cells. Wherever sifting compares the cap, it compares it with the number of cells
    that are pending then. A counter of 64 bits gives the same answers as long as the set has no
    more cells than it can count. -/
theorem pending_is_set (calls : List Call) :
    let kept := transcript Pending.respond Pending.empty calls
    let held := transcript respond ∅ calls
    let counted := transcript Pending.respondCounted (Pending.empty, 0) calls
    kept.1 = held.1 ∧ kept.2.Is held.2 ∧
      (kept.2.cells.Nodup ∧ kept.2.cells.toFinset = held.2 ∧
        kept.2.size = kept.2.cells.length) ∧
      (∀ (world : WorldName) (cap : Option Nat) (front : List LostCell),
        let sifted := front.foldl (Sifted.step world cap) (Sifted.nothing, kept.2)
        let pending := held.2 ∪ (sifted.1.taken.map fun c => (world, c.pos)).toFinset
        sifted.2.Is pending ∧
          (sifted.2.isFull cap = true ↔ ∃ limit, cap = some limit ∧ limit ≤ pending.card)) ∧
      ((∀ front, front <+: calls → (transcript respond ∅ front).2.card ≤ 18446744073709551615) →
        counted.1 = held.1 ∧ counted.2.2.val = held.2.card) := by
  obtain ⟨hanswers, his⟩ := Pending.is_empty.transcript calls
  refine ⟨hanswers, his, his.cells_spec, fun world cap front => ?_, fun hfits => ?_⟩
  · have hstart : (transcript Pending.respond Pending.empty calls).2.Is
        ((transcript respond ∅ calls).2 ∪
          (Sifted.nothing.taken.map fun c => (world, c.pos)).toFinset) := by
      simpa [Sifted.nothing] using his
    have hsifted := @Pending.Is.foldl_step _ _ world cap front Sifted.nothing hstart
    exact ⟨hsifted, hsifted.isFull_iff cap⟩
  · exact Pending.is_empty.transcriptCounted rfl calls hfits

open CellSet in
/-- Cells of two worlds in one place, one of which is put in twice and taken out twice. -/
theorem pending_is_set_across_worlds :
    let place : Pos := ⟨Coord.clamp 0, Coord.clamp (-1), Coord.clamp 2⟩
    let here : Cell := ("overworld", place)
    let there : Cell := ("nether", place)
    let calls : List Call := [.insert here, .insert there, .insert here, .remove here,
      .remove here, .contains here, .contains there]
    let kept := transcript Pending.respond Pending.empty calls
    let counted := transcript Pending.respondCounted (Pending.empty, 0) calls
    kept.1 = [true, true, false, true, false, false, true].map .yes ∧
      kept.2.Is (transcript respond ∅ calls).2 ∧ kept.2.isFull (some 1) = true ∧
      counted.1 = kept.1 ∧ counted.2.2.val = 1 := by
  intro place here there calls kept counted
  obtain ⟨hanswers, his, -, -, hcounted⟩ := pending_is_set calls
  have hheld : (transcript respond ∅ calls).1
      = [true, true, false, true, false, false, true].map .yes := by decide +kernel
  have hcard : (transcript respond ∅ calls).2.card = 1 := by decide +kernel
  obtain ⟨hcount, hnumber⟩ := hcounted fun front hfront => by
    have hbound : _ ≤ 0 + front.length := card_transcript_le ∅ front
    have hlength : front.length ≤ 7 := hfront.length_le
    omega
  refine ⟨hanswers.trans hheld, his, ?_, hcount.trans hanswers.symm, hnumber.trans hcard⟩
  exact (his.isFull_iff (some 1)).2 ⟨1, rfl, Nat.le_of_eq hcard.symm⟩

end Mend
