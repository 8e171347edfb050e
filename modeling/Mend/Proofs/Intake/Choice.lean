import Mathlib.Data.List.Induction
import Mend.Proofs.Intake.Sifting

set_option autoImplicit false

/-! # Which cells are taken in

Sifting goes through the cells one by one and makes those it takes in pending as it goes. What it
comes to can be said without going through them: of the cells that are not pending those that come
first at their position are candidates, and as many of the candidates are taken in as there is
room for (`Sifted.choice`). The cells left out are counted by what stands before them in the list
(`Sifted.Repeats`, `Sifted.LeftOut`). A list with one more cell at its end shows that sifting comes
to this choice (`Sifted.Chosen.step`, `sifted_exactly`). -/

namespace Mend

namespace Sifted

/-! ## The choice without going through the cells -/

/-- Each cell of a list, behind the cells that stand before it. -/
def preceded (cells : List LostCell) : List (List LostCell × LostCell) :=
  cells.zipIdx.map fun (c, i) => (cells.take i, c)

/-- The cells before which none has the same position. -/
def firsts (cells : List LostCell) : List LostCell :=
  ((preceded cells).filter fun (before, c) => c.pos ∉ before.map LostCell.pos).map Prod.snd

/-- The cells that are not pending, each position at its first place. -/
def candidates (w : WorldName) (p : Pending) (cells : List LostCell) : List LostCell :=
  firsts (cells.filter fun c => !p.contains w c.pos)

/-- The candidates there is room for. -/
def choice (w : WorldName) (p : Pending) (cap : Option Nat) (cells : List LostCell) :
    List LostCell :=
  match cap with
  | none => candidates w p cells
  | some limit => (candidates w p cells).take (limit - p.size)

/-- The position of the cell was pending, or is that of a cell chosen before. -/
def Repeats (w : WorldName) (p : Pending) (cap : Option Nat) (before : List LostCell)
    (c : LostCell) : Prop :=
  p.contains w c.pos = true ∨ c.pos ∈ (choice w p cap before).map LostCell.pos

/-- The cell adds nothing to what was chosen before. -/
def LeftOut (w : WorldName) (p : Pending) (cap : Option Nat) (before : List LostCell)
    (c : LostCell) : Prop :=
  choice w p cap (before ++ [c]) = choice w p cap before

instance (w : WorldName) (p : Pending) (cap : Option Nat) (before : List LostCell)
    (c : LostCell) : Decidable (Repeats w p cap before c) :=
  inferInstanceAs (Decidable (_ ∨ _))

instance (w : WorldName) (p : Pending) (cap : Option Nat) (before : List LostCell)
    (c : LostCell) : Decidable (LeftOut w p cap before c) :=
  inferInstanceAs (Decidable (_ = _))

/-- The number of cells that repeat a position. -/
def repeatCount (w : WorldName) (p : Pending) (cap : Option Nat) (cells : List LostCell) : Nat :=
  (preceded cells).countP fun (before, c) => Repeats w p cap before c

/-- The number of cells that are left out and repeat no position. -/
def surplusCount (w : WorldName) (p : Pending) (cap : Option Nat) (cells : List LostCell) : Nat :=
  (preceded cells).countP fun (before, c) => ¬ Repeats w p cap before c ∧ LeftOut w p cap before c

/-! ## One more cell -/

variable {w : WorldName} {p : Pending} {cap : Option Nat} {cells : List LostCell} {c : LostCell}

theorem preceded_concat (cells : List LostCell) (c : LostCell) :
    preceded (cells ++ [c]) = preceded cells ++ [(cells, c)] := by
  have hbefore : ∀ x ∈ cells.zipIdx, (cells ++ [c]).take x.2 = cells.take x.2 := by
    intro x hx
    have hlt : x.2 < 0 + cells.length := List.snd_lt_add_of_mem_zipIdx hx
    exact List.take_append_of_le_length (by omega)
  simp only [preceded, List.zipIdx_append, List.map_append]
  congr 1
  · apply List.map_congr_left
    intro x hx
    rw [hbefore x hx]
  · simp

theorem firsts_concat (cells : List LostCell) (c : LostCell) : firsts (cells ++ [c])
    = firsts cells ++ if c.pos ∈ cells.map LostCell.pos then [] else [c] := by
  rw [firsts, preceded_concat, List.filter_append, List.map_append]
  congr 1
  by_cases h : c.pos ∈ cells.map LostCell.pos
  · rw [if_pos h, List.filter_cons_of_neg (by simpa using h)]
    rfl
  · rw [if_neg h, List.filter_cons_of_pos (by simpa using h)]
    rfl

/-- The first cells have the positions of all. -/
theorem mem_map_firsts {a : Pos} :
    a ∈ (firsts cells).map LostCell.pos ↔ a ∈ cells.map LostCell.pos := by
  induction cells using List.reverseRecOn with
  | nil => simp [firsts, preceded]
  | append_singleton cells c ih =>
      rw [firsts_concat, List.map_append, List.mem_append, ih, List.map_append, List.mem_append]
      by_cases h : c.pos ∈ cells.map LostCell.pos
      · -- the position of the last cell is there already
        rw [if_pos h, List.map_nil, List.map_singleton, List.mem_singleton]
        constructor
        · rintro (hin | hin)
          · exact Or.inl hin
          · exact absurd hin List.not_mem_nil
        · rintro (hin | rfl)
          · exact Or.inl hin
          · exact Or.inl h
      · rw [if_neg h]

theorem candidates_concat_of_pending (h : p.contains w c.pos = true) :
    candidates w p (cells ++ [c]) = candidates w p cells := by
  simp [candidates, List.filter_append, h]

theorem candidates_concat_of_fresh (h : p.contains w c.pos = false) :
    candidates w p (cells ++ [c]) = candidates w p cells
      ++ if c.pos ∈ (candidates w p cells).map LostCell.pos then [] else [c] := by
  have hfilter : (cells ++ [c]).filter (fun c => !p.contains w c.pos)
      = cells.filter (fun c => !p.contains w c.pos) ++ [c] := by
    simp [List.filter_append, h]
  rw [candidates, hfilter, firsts_concat]
  simp only [candidates, mem_map_firsts]

/-- A cell whose position is among those chosen before adds nothing. -/
theorem choice_concat_of_repeats (h : Repeats w p cap cells c) :
    choice w p cap (cells ++ [c]) = choice w p cap cells := by
  have hsame : candidates w p (cells ++ [c]) = candidates w p cells := by
    cases hpend : p.contains w c.pos with
    | true => exact candidates_concat_of_pending hpend
    | false =>
        rcases h with hin | hchosen
        · rw [hpend] at hin
          cases hin
        · have hmem : c.pos ∈ (candidates w p cells).map LostCell.pos := by
            cases cap with
            | none => exact hchosen
            | some limit => exact ((List.take_sublist _ _).map _).subset hchosen
          rw [candidates_concat_of_fresh hpend, if_pos hmem, List.append_nil]
  cases cap <;> simp only [choice, hsame]

/-- Once there is no room left, nothing is added. -/
theorem choice_concat_of_full {limit : Nat}
    (h : limit - p.size ≤ (choice w p (some limit) cells).length) (c : LostCell) :
    choice w p (some limit) (cells ++ [c]) = choice w p (some limit) cells := by
  have hroom : limit - p.size ≤ (candidates w p cells).length :=
    Nat.le_trans h (List.length_take_le' _ _)
  cases hpend : p.contains w c.pos with
  | true => simp only [choice, candidates_concat_of_pending hpend]
  | false =>
      simp only [choice, candidates_concat_of_fresh hpend]
      exact List.take_append_of_le_length hroom

/-- A fresh cell for which there is room is added. -/
theorem choice_concat_of_fresh (hfresh : ¬ Repeats w p cap cells c)
    (hroom : ∀ limit, cap = some limit → (choice w p cap cells).length < limit - p.size) :
    choice w p cap (cells ++ [c]) = choice w p cap cells ++ [c] := by
  rw [Repeats, not_or] at hfresh
  have hpend : p.contains w c.pos = false := Bool.eq_false_iff.2 hfresh.1
  cases cap with
  | none =>
      have hnew : c.pos ∉ (candidates w p cells).map LostCell.pos := hfresh.2
      simp only [choice, candidates_concat_of_fresh hpend, if_neg hnew]
  | some limit =>
      have hlt := hroom limit rfl
      simp only [choice, List.length_take] at hlt
      have hall : (candidates w p cells).take (limit - p.size) = candidates w p cells :=
        List.take_of_length_le (by omega)
      have hnew : c.pos ∉ (candidates w p cells).map LostCell.pos := by
        rw [← hall]
        exact hfresh.2
      simp only [choice, candidates_concat_of_fresh hpend, if_neg hnew, hall]
      exact List.take_of_length_le (by rw [List.length_append, List.length_singleton]; omega)

theorem repeatCount_concat (cells : List LostCell) (c : LostCell) :
    repeatCount w p cap (cells ++ [c])
      = repeatCount w p cap cells + if Repeats w p cap cells c then 1 else 0 := by
  simp [repeatCount, preceded_concat, List.countP_append, List.countP_singleton]

theorem surplusCount_concat (cells : List LostCell) (c : LostCell) :
    surplusCount w p cap (cells ++ [c]) = surplusCount w p cap cells
      + if ¬ Repeats w p cap cells c ∧ LeftOut w p cap cells c then 1 else 0 := by
  simp [surplusCount, preceded_concat, List.countP_append, List.countP_singleton]

/-! ## Sifting makes the choice -/

/-- What sifting comes to: the cells it takes in, the pending set it leaves and its counts. -/
structure Chosen (w : WorldName) (p : Pending) (cap : Option Nat) (cells : List LostCell)
    (s : Sifted) (p' : Pending) : Prop where
  taken : s.taken = choice w p cap cells
  /-- What was taken in is pending, besides what was. -/
  contains_iff : ∀ v a, p'.contains v a = true ↔
    p.contains v a = true ∨ v = w ∧ a ∈ (choice w p cap cells).map LostCell.pos
  size : p'.size = p.size + (choice w p cap cells).length
  alreadyPending : s.alreadyPending = Capped.clamp (repeatCount w p cap cells)
  overCap : s.overCap = Capped.clamp (surplusCount w p cap cells)
  /-- Every cell is counted once. -/
  total : (choice w p cap cells).length + repeatCount w p cap cells + surplusCount w p cap cells
    = cells.length

theorem chosen_nil (w : WorldName) (p : Pending) (cap : Option Nat) :
    Chosen w p cap [] nothing p := by
  have hnone : choice w p cap [] = [] := by cases cap <;> simp [choice, candidates, firsts, preceded]
  exact
    { taken := hnone.symm
      contains_iff := by simp [hnone]
      size := by simp [hnone]
      alreadyPending := rfl
      overCap := rfl
      total := by simp [hnone, repeatCount, surplusCount, preceded] }

namespace Chosen

variable {s : Sifted} {p' : Pending}

/-- A cell found pending in the course of sifting repeats a position. -/
theorem repeats_iff (h : Chosen w p cap cells s p') :
    Repeats w p cap cells c ↔ p'.contains w c.pos = true := by
  rw [h.contains_iff, Repeats]
  simp

/-- Once there is no room, every cell is left out. -/
theorem leftOut_of_full (h : Chosen w p cap cells s p') (hfull : p'.isFull cap = true)
    (c : LostCell) : LeftOut w p cap cells c := by
  cases cap with
  | none => cases hfull
  | some limit =>
      have hle : limit ≤ p'.size := by simpa [Pending.isFull] using hfull
      have hsize := h.size
      exact choice_concat_of_full (by omega) c

/-- A fresh cell is chosen as long as there is room. -/
theorem choice_concat_of_room (h : Chosen w p cap cells s p')
    (hfresh : ¬ Repeats w p cap cells c) (hroom : p'.isFull cap = false) :
    choice w p cap (cells ++ [c]) = choice w p cap cells ++ [c] := by
  refine choice_concat_of_fresh hfresh ?_
  rintro limit rfl
  have hlt : p'.size < limit := by simpa [Pending.isFull] using hroom
  have hsize := h.size
  omega

/-- A cell that repeats a position is one more of those. -/
theorem concat_of_repeats (h : Chosen w p cap cells s p')
    (hrepeats : Repeats w p cap cells c) : Chosen w p cap (cells ++ [c])
      { s with alreadyPending := s.alreadyPending + 1 } p' := by
  have hsame : choice w p cap (cells ++ [c]) = choice w p cap cells :=
    choice_concat_of_repeats hrepeats
  have hcount : repeatCount w p cap (cells ++ [c]) = repeatCount w p cap cells + 1 := by
    rw [repeatCount_concat, if_pos hrepeats]
  have hsurplus : surplusCount w p cap (cells ++ [c]) = surplusCount w p cap cells := by
    rw [surplusCount_concat, if_neg fun hout => hout.1 hrepeats, Nat.add_zero]
  have htotal := h.total
  refine ⟨h.taken.trans hsame.symm, ?_, h.size.trans (by rw [hsame]), ?_,
    h.overCap.trans (by rw [hsurplus]), ?_⟩
  · rw [hsame]
    exact h.contains_iff
  · rw [hcount, ← Capped.clamp_add_clamp, ← h.alreadyPending]
    rfl
  · simp only [hsame, hcount, hsurplus, List.length_append, List.length_singleton]
    omega

/-- A fresh cell for which there is no room is one more of those left out. -/
theorem concat_of_full (h : Chosen w p cap cells s p') (hfresh : ¬ Repeats w p cap cells c)
    (hfull : p'.isFull cap = true) : Chosen w p cap (cells ++ [c])
      { s with overCap := s.overCap + 1 } p' := by
  have hout : LeftOut w p cap cells c := h.leftOut_of_full hfull c
  have hsame : choice w p cap (cells ++ [c]) = choice w p cap cells := hout
  have hcount : repeatCount w p cap (cells ++ [c]) = repeatCount w p cap cells := by
    rw [repeatCount_concat, if_neg hfresh, Nat.add_zero]
  have hsurplus : surplusCount w p cap (cells ++ [c]) = surplusCount w p cap cells + 1 := by
    rw [surplusCount_concat, if_pos ⟨hfresh, hout⟩]
  have htotal := h.total
  refine ⟨h.taken.trans hsame.symm, ?_, h.size.trans (by rw [hsame]),
    h.alreadyPending.trans (by rw [hcount]), ?_, ?_⟩
  · rw [hsame]
    exact h.contains_iff
  · rw [hsurplus, ← Capped.clamp_add_clamp, ← h.overCap]
    rfl
  · simp only [hsame, hcount, hsurplus, List.length_append, List.length_singleton]
    omega

/-- A fresh cell for which there is room becomes the last of those taken in. -/
theorem concat_of_room (h : Chosen w p cap cells s p') (hfresh : ¬ Repeats w p cap cells c)
    (hroom : p'.isFull cap = false) : Chosen w p cap (cells ++ [c])
      { s with taken := s.taken ++ [c] } (p'.insert w c.pos).2 := by
  have hmore : choice w p cap (cells ++ [c]) = choice w p cap cells ++ [c] :=
    h.choice_concat_of_room hfresh hroom
  have hpend : p'.contains w c.pos = false := Bool.eq_false_iff.2 (mt h.repeats_iff.2 hfresh)
  have hin : ¬ LeftOut w p cap cells c := by
    intro hout
    have hsame : choice w p cap (cells ++ [c]) = choice w p cap cells := hout
    simp [hmore] at hsame
  have hcount : repeatCount w p cap (cells ++ [c]) = repeatCount w p cap cells := by
    rw [repeatCount_concat, if_neg hfresh, Nat.add_zero]
  have hsurplus : surplusCount w p cap (cells ++ [c]) = surplusCount w p cap cells := by
    rw [surplusCount_concat, if_neg fun hout => hin hout.2, Nat.add_zero]
  have htotal := h.total
  refine ⟨?_, fun v a => ?_, ?_, h.alreadyPending.trans (by rw [hcount]),
    h.overCap.trans (by rw [hsurplus]), ?_⟩
  · rw [hmore, ← h.taken]
  · rw [Pending.contains_insert, Bool.or_eq_true, decide_eq_true_eq, h.contains_iff, hmore]
    simp only [List.map_append, List.mem_append, List.map_singleton, List.mem_singleton]
    tauto
  · rw [Pending.size_insert_of_fresh hpend, h.size, hmore, List.length_append,
      List.length_singleton, Nat.add_assoc]
  · simp only [hmore, hcount, hsurplus, List.length_append, List.length_singleton]
    omega

/-- The cells sifted so far are kept with the last one first. -/
theorem step (h : Chosen w p cap cells { s with taken := s.taken.reverse } p') (c : LostCell) :
    Chosen w p cap (cells ++ [c])
      { (step w cap (s, p') c).1 with taken := (step w cap (s, p') c).1.taken.reverse }
      (step w cap (s, p') c).2 := by
  cases hpend : p'.contains w c.pos with
  | true =>
      rw [step_of_pending hpend]
      exact h.concat_of_repeats (h.repeats_iff.2 hpend)
  | false =>
      have hfresh : ¬ Repeats w p cap cells c := by
        rw [h.repeats_iff, hpend]
        exact Bool.false_ne_true
      cases hfull : p'.isFull cap with
      | true =>
          rw [step_of_full hpend hfull]
          exact h.concat_of_full hfresh hfull
      | false =>
          rw [step_of_room hpend hfull, List.reverse_cons]
          exact h.concat_of_room hfresh hfull

end Chosen

/-- Sifting makes the choice. -/
theorem chosen_ofCells (w : WorldName) (cells : List LostCell) (p : Pending) (cap : Option Nat) :
    Chosen w p cap cells (ofCells w cells p cap).1 (ofCells w cells p cap).2 := by
  induction cells using List.reverseRecOn with
  | nil => exact chosen_nil w p cap
  | append_singleton cells c ih =>
      simp only [ofCells, List.foldl_concat] at ih ⊢
      exact ih.step c

end Sifted

/-- **Which cells are taken in.** Of the cells that are not pending those that come first at their
    position are taken in, up to the cap, in the order of the list. They become pending besides
    those that were, and the counts add up to the number of cells, as long as a count can name
    it. -/
theorem sifted_exactly (w : WorldName) (cells : List LostCell) (p : Pending) (cap : Option Nat) :
    let r := Sifted.ofCells w cells p cap
    Sifted.Chosen w p cap cells r.1 r.2 ∧
      (∀ listed, p.Holds listed →
        r.2.Holds (listed ++ (Sifted.choice w p cap cells).map fun c => (w, c.pos))) ∧
      (cells.length < 4294967296 →
        r.1.taken.length + r.1.alreadyPending.val + r.1.overCap.val = cells.length) := by
  have hchosen := Sifted.chosen_ofCells w cells p cap
  refine ⟨hchosen, fun listed hlisted => ?_, fun small => ?_⟩
  · rw [← hchosen.taken]
    exact Sifted.holds_ofCells w cap cells hlisted
  · have htotal := hchosen.total
    rw [hchosen.taken, hchosen.alreadyPending, hchosen.overCap, Capped.val_clamp,
      Capped.val_clamp]
    omega

/-- One cell of a row is pending and there is room for two more. Of a list with repeats the second
    and the fourth cell are taken in; the two at the end of the row find no room. -/
theorem sifted_exactly_with_room_for_two :
    let stone (x : Int) : LostCell := ⟨Pos.clamp x 0 0, Content.plain "stone", .natural⟩
    let p := (Pending.empty.insert "quarry" (Pos.clamp 0 0 0)).2
    let cells := [0, 1, 1, 2, 3, 3, 1].map stone
    let r := Sifted.ofCells "quarry" cells p (some 3)
    p.Holds [("quarry", Pos.clamp 0 0 0)] ∧ cells.length < 4294967296 ∧
      r.1 = ⟨[stone 1, stone 2], 3, 2⟩ ∧
      r.2.Holds ([("quarry", Pos.clamp 0 0 0)]
        ++ [("quarry", Pos.clamp 1 0 0), ("quarry", Pos.clamp 2 0 0)]) ∧
      r.1.taken.length + r.1.alreadyPending.val + r.1.overCap.val = cells.length := by
  intro stone p cells r
  have hpending : p.Holds [("quarry", Pos.clamp 0 0 0)] :=
    Pending.holds_empty.insert (Pending.contains_empty _ _)
  have hchoice : (Sifted.choice "quarry" p (some 3) cells).map (fun c => ("quarry", c.pos))
      = [("quarry", Pos.clamp 1 0 0), ("quarry", Pos.clamp 2 0 0)] := by
    decide +kernel
  obtain ⟨-, hholds, htotal⟩ := sifted_exactly "quarry" cells p (some 3)
  refine ⟨hpending, by decide, by decide +kernel, ?_, htotal (by decide)⟩
  rw [← hchoice]
  exact hholds _ hpending

end Mend
