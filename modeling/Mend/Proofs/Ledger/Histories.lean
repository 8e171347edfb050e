import Mathlib.Data.List.Induction
import Mend.Proofs.Ledger.Counting
import Mend.Proofs.Ledger.Tallies

set_option autoImplicit false

/-! # What a ledger knows of each damage

The history of some damage is the record that was opened for it and the outcomes of its cells since
then, in order; calls on other damage do not count. After any calls the ledger holds for each damage
what its history says, and nothing else (`Ledger.getElem?_ofCalls`): the record with these outcomes
resolved as long as cells remain, and no record once they have all come out. So the answer to each
further call follows from the history alone. -/

namespace Mend

/-! ## Records -/

namespace Record

variable {r : Record} {os : List Outcome}

/-- A record loses one remaining cell with each outcome, and its tally records the outcomes. -/
theorem foldl_resolve (r : Record) (os : List Outcome) :
    os.foldl resolve r = { r with
      remaining := (os.foldl resolve r).remaining, tally := os.foldl Tally.record r.tally } := by
  induction os generalizing r with
  | nil => rfl
  | cons o rest ih =>
      rw [List.foldl_cons, ih]
      rfl

theorem val_remaining_foldl_resolve (r : Record) (os : List Outcome) :
    (os.foldl resolve r).remaining.val = r.remaining.val - os.length := by
  induction os generalizing r with
  | nil => rfl
  | cons o rest ih =>
      rw [List.foldl_cons, ih, Ledger.val_remaining_resolve, List.length_cons, Nat.sub_sub,
        Nat.add_comm]

/-- The order of the outcomes does not count. -/
theorem foldl_resolve_perm {os' : List Outcome} (h : os'.Perm os) :
    os'.foldl resolve r = os.foldl resolve r := by
  have hremaining : (os'.foldl resolve r).remaining = (os.foldl resolve r).remaining :=
    Capped.ext (by rw [val_remaining_foldl_resolve, val_remaining_foldl_resolve, h.length_eq])
  rw [foldl_resolve r os', foldl_resolve r os, hremaining, Tally.foldl_record_perm h]

/-- The record that is handed back once all cells of `r` have come out, with the given outcomes: it
    is `r` but for the remaining cells, of which there are none, and the tally, to which the
    outcomes are added up to the cap. -/
structure Closes (r : Record) (os : List Outcome) (closed : Record) : Prop where
  sameDamage : closed = { r with remaining := closed.remaining, tally := closed.tally }
  noneRemain : closed.remaining = 0
  counted : ∀ o, (closed.tally.count o).val
    = min ((r.tally.count o).val + os.count o) 4294967295

theorem closes_foldl_resolve (h : r.remaining.val = os.length) :
    r.Closes os (os.foldl resolve r) where
  sameDamage := by
    have hfold := foldl_resolve r os
    rw [hfold]
  noneRemain := by
    refine Capped.ext ?_
    rw [val_remaining_foldl_resolve, h, Nat.sub_self]
    rfl
  counted o := by
    rw [foldl_resolve]
    exact Tally.val_count_foldl_record os r.tally o

end Record

namespace Ledger

/-! ## Calls and histories -/

/-- A call that changes a ledger. -/
inductive Call where
  | register (r : Record)
  | resolve (id : DamageId) (o : Outcome)
deriving DecidableEq

/-- The damage that a call is about. -/
def Call.damage : Call → DamageId
  | .register r => r.damage
  | .resolve id _ => id

/-- The ledger after a call. -/
def after (l : Ledger) : Call → Ledger
  | .register r => l.register r
  | .resolve id o => (l.resolve id o).2

/-- The ledger after a list of calls. -/
def ofCalls (calls : List Call) : Ledger := calls.foldl after empty

/-- The record that was opened for some damage and the outcomes of its cells since then. -/
abbrev History := Option (Record × List Outcome)

/-- The history of some damage after one more call. Opening a record without cells does not
    count. -/
def note (id : DamageId) (h : History) : Call → History
  | .register r => if r.damage = id ∧ r.remaining.val ≠ 0 then some (r, []) else h
  | .resolve k o => if k = id then h.map fun known => (known.1, known.2 ++ [o]) else h

/-- The history of some damage. -/
def history (calls : List Call) (id : DamageId) : History := calls.foldl (note id) none

/-- The record that is left of a history, if cells remain. -/
def left : History → Option Record
  | none => none
  | some (r, os) => if os.length < r.remaining.val then some (os.foldl Record.resolve r) else none

variable {l : Ledger} {id : DamageId} {r : Record} {os : List Outcome}

/-- The record after one more cell has come out, unless that was the last. -/
def charged (o : Outcome) (r : Record) : Option Record :=
  if (r.resolve o).remaining.val = 0 then none else some (r.resolve o)

theorem getElem?_resolve_self (l : Ledger) (id : DamageId) (o : Outcome) :
    (l.resolve id o).2.records[id]? = l.records[id]?.bind (charged o) := by
  cases hr : l.records[id]? with
  | none => rw [resolve_of_not_contains hr, hr, Option.bind_none]
  | some r => rw [getElem?_resolve hr, if_pos rfl, Option.bind_some, charged]

theorem left_start (h : r.remaining.val ≠ 0) : left (some (r, [])) = some r :=
  if_pos (Nat.pos_of_ne_zero h)

/-- One more outcome charges the record that is left. -/
theorem left_concat (r : Record) (os : List Outcome) (o : Outcome) :
    left (some (r, os ++ [o])) = (left (some (r, os))).bind (charged o) := by
  have hremaining := Record.val_remaining_foldl_resolve r (os ++ [o])
  rw [List.length_append, List.length_singleton, List.foldl_concat] at hremaining
  rw [left, left, List.length_append, List.length_singleton, List.foldl_concat]
  split_ifs with hmore hlive hlive
  · rw [Option.bind_some, charged, if_neg (by omega)]
  · omega
  · rw [Option.bind_some, charged, if_pos (by omega)]
  · rfl

/-- One call changes the record as it changes what is left of the history. -/
theorem getElem?_after {h : History} (hl : l.records[id]? = left h) (c : Call) :
    (l.after c).records[id]? = left (note id h c) := by
  cases c with
  | register r =>
      by_cases hr : r.remaining.val = 0
      · rw [after, register, if_pos hr, note, if_neg fun hboth => hboth.2 hr]
        exact hl
      · rw [after, getElem?_register hr, note]
        by_cases hid : r.damage = id
        · rw [if_pos hid, if_pos ⟨hid, hr⟩, left_start hr]
        · rw [if_neg hid, if_neg fun hboth => hid hboth.1]
          exact hl
  | resolve k o =>
      by_cases hid : k = id
      · rw [after, note, if_pos hid, hid, getElem?_resolve_self, hl]
        cases h with
        | none => rfl
        | some known => exact (left_concat known.1 known.2 o).symm
      · rw [after, getElem?_resolve_other hid, note, if_neg hid]
        exact hl

/-- A ledger holds of each damage what is left of its history. -/
theorem getElem?_ofCalls (calls : List Call) (id : DamageId) :
    (ofCalls calls).records[id]? = left (history calls id) := by
  induction calls using List.reverseRecOn with
  | nil => simp [ofCalls, history, left, empty]
  | append_singleton calls c ih =>
      rw [ofCalls, history, List.foldl_concat, List.foldl_concat]
      exact getElem?_after ih c

/-! ## Answers -/

/-- The ledger does not know the damage: it says so, and resolving a cell of it changes nothing. -/
def Ignores (l : Ledger) (id : DamageId) : Prop :=
  l.remaining? id = none ∧ ∀ o, l.resolve id o = (none, l)

/-- The ledger waits for the cells of a record after those that came out with the outcomes `os`. The
    last cell hands the closed record back, and no cell before it does. -/
structure Awaits (l : Ledger) (id : DamageId) (r : Record) (os : List Outcome) : Prop where
  remaining : ∃ n, l.remaining? id = some n ∧ n.val = r.remaining.val - os.length
  before : os.length + 1 < r.remaining.val → ∀ o, (l.resolve id o).1 = none
  last : os.length + 1 = r.remaining.val → ∀ o, ∃ closed,
    (l.resolve id o).1 = some closed ∧ r.Closes (os ++ [o]) closed

/-- What a ledger answers for damage with the given history. -/
def Answers (l : Ledger) (id : DamageId) : History → Prop
  | none => l.Ignores id
  | some (r, os) => if os.length < r.remaining.val then l.Awaits id r os else l.Ignores id

theorem ignores_of_getElem? (h : l.records[id]? = none) : l.Ignores id :=
  ⟨by rw [remaining?, h]; rfl, resolve_of_not_contains h⟩

theorem awaits_of_getElem? (h : l.records[id]? = some (os.foldl Record.resolve r)) :
    l.Awaits id r os where
  remaining := ⟨(os.foldl Record.resolve r).remaining, by rw [remaining?, h]; rfl,
    Record.val_remaining_foldl_resolve r os⟩
  before hmore o := by
    rw [resolve_fst h, val_remaining_resolve, Record.val_remaining_foldl_resolve,
      if_neg (by omega)]
  last hlast o := by
    refine ⟨(os ++ [o]).foldl Record.resolve r, ?_, Record.closes_foldl_resolve ?_⟩
    · rw [resolve_fst h, val_remaining_resolve, Record.val_remaining_foldl_resolve,
        if_pos (by omega), List.foldl_concat]
    · rw [List.length_append, List.length_singleton, hlast]

theorem answers_ofCalls (calls : List Call) (id : DamageId) :
    (ofCalls calls).Answers id (history calls id) := by
  have hrecord := getElem?_ofCalls calls id
  cases hhistory : history calls id with
  | none => exact ignores_of_getElem? (hrecord.trans (by rw [hhistory]; rfl))
  | some known =>
      obtain ⟨r, os⟩ := known
      rw [hhistory, left] at hrecord
      rw [Answers]
      split_ifs at hrecord ⊢ with hlive
      · exact awaits_of_getElem? hrecord
      · exact ignores_of_getElem? hrecord

/-! ## Order -/

/-- Calls on other damage do not change the history of some damage. -/
theorem history_filter (calls : List Call) (id : DamageId) :
    history (calls.filter fun c => c.damage = id) id = history calls id := by
  have hnote : (fun h c => if decide (Call.damage c = id) = true then note id h c else h)
      = note id := by
    funext h c
    by_cases hid : c.damage = id
    · rw [if_pos (decide_eq_true hid)]
    · rw [if_neg (by simpa using hid)]
      cases c with
      | register r => exact (if_neg fun hboth => hid hboth.1).symm
      | resolve k o => exact (if_neg hid).symm
  rw [history, history, List.foldl_filter, hnote]

/-- What resolving a cell hands back, by the history of its damage. -/
theorem resolve_fst_ofCalls {calls : List Call} (h : history calls id = some (r, os))
    (o : Outcome) : ((ofCalls calls).resolve id o).1
      = if (os ++ [o]).length = r.remaining.val then some ((os ++ [o]).foldl Record.resolve r)
        else none := by
  have hrecord := getElem?_ofCalls calls id
  rw [h, left] at hrecord
  rw [List.length_append, List.length_singleton]
  by_cases hlive : os.length < r.remaining.val
  · rw [if_pos hlive] at hrecord
    rw [resolve_fst hrecord, val_remaining_resolve, Record.val_remaining_foldl_resolve,
      List.foldl_concat]
    exact if_congr (by omega) rfl rfl
  · rw [if_neg hlive] at hrecord
    rw [resolve_of_not_contains hrecord, if_neg (by omega)]

/-- The order of the outcomes does not count for what is handed back. -/
theorem resolve_fst_of_perm {calls calls' : List Call} {os' : List Outcome} {o o' : Outcome}
    (h : history calls id = some (r, os)) (h' : history calls' id = some (r, os'))
    (hperm : (os' ++ [o']).Perm (os ++ [o])) :
    ((ofCalls calls').resolve id o').1 = ((ofCalls calls).resolve id o).1 := by
  rw [resolve_fst_ofCalls h, resolve_fst_ofCalls h', hperm.length_eq,
    Record.foldl_resolve_perm hperm]

/-- Cells of different damage may be resolved in either order. -/
theorem resolve_comm (l : Ledger) {id id' : DamageId} (hne : id ≠ id') (o o' : Outcome) :
    ((l.resolve id o).2.resolve id' o').1 = (l.resolve id' o').1 ∧
      ((l.resolve id o).2.resolve id' o').2 = ((l.resolve id' o').2.resolve id o).2 := by
  have hother := getElem?_resolve_other (l := l) hne o
  have hother' := getElem?_resolve_other (l := l) (Ne.symm hne) o'
  refine ⟨(resolve_congr hother o').1, congrArg mk (Std.ExtTreeMap.ext_getElem? fun k => ?_)⟩
  by_cases hk : id = k
  · subst hk
    rw [getElem?_resolve_other (Ne.symm hne)]
    exact (resolve_congr hother' o).2.symm
  · rw [getElem?_resolve_other hk]
    by_cases hk' : id' = k
    · subst hk'
      exact (resolve_congr hother o').2
    · rw [getElem?_resolve_other hk', getElem?_resolve_other hk', getElem?_resolve_other hk]

/-- **What a ledger answers for some damage is told by the history of that damage.** After any
    calls, the ledger waits for the cells that have not come out since the record was opened and
    hands the closed record back with the last of them; before a record is opened and after it was
    closed, it does not know the damage. Neither the calls on other damage count nor the order of
    the outcomes, and cells of different damage may be resolved in either order. -/
theorem told_by_history :
    (∀ calls id, (ofCalls calls).Answers id (history calls id)) ∧
    (∀ calls id, history (calls.filter fun c => c.damage = id) id = history calls id) ∧
    (∀ calls calls' id r os os' o o', history calls id = some (r, os) →
      history calls' id = some (r, os') → (os' ++ [o']).Perm (os ++ [o]) →
      ((ofCalls calls').resolve id o').1 = ((ofCalls calls).resolve id o).1) ∧
    ∀ (l : Ledger) id id' o o', id ≠ id' →
      ((l.resolve id o).2.resolve id' o').1 = (l.resolve id' o').1 ∧
      ((l.resolve id' o').2.resolve id o).1 = (l.resolve id o).1 ∧
      ((l.resolve id o).2.resolve id' o').2 = ((l.resolve id' o').2.resolve id o).2 := by
  refine ⟨answers_ofCalls, history_filter, ?_, ?_⟩
  · exact fun _ _ _ _ _ _ _ _ h h' hperm => resolve_fst_of_perm h h' hperm
  · intro l id id' o o' hne
    have hcomm := resolve_comm l hne o o'
    exact ⟨hcomm.1, (resolve_comm l hne.symm o' o).1, hcomm.2⟩

/-- Two records whose cells come out in turn, with the tally of one full but for one. The one waits
    for its last cell, and the other was closed. -/
theorem told_by_history_in_turn :
    let a := DamageId.ofNat 1
    let b := DamageId.ofNat 2
    let record id n : Record :=
      ⟨id, "overworld", default, 3, n, ⟨4294967294, 0, 0⟩, 0⟩
    let calls : List Call := [.resolve b .failed, .register (record a 3), .resolve a .restored,
      .register (record b 1), .resolve b .skipped, .resolve a .skipped]
    let calls' : List Call := [.register (record a 3), .resolve a .restored, .resolve a .restored]
    (ofCalls calls).Awaits a (record a 3) [.restored, .skipped] ∧ (ofCalls calls).Ignores b ∧
      ((ofCalls calls').resolve a .skipped).1 = ((ofCalls calls).resolve a .restored).1 ∧
      (((ofCalls calls).resolve a .restored).1.map fun r => r.tally)
        = some ⟨4294967295, 1, 0⟩ ∧
      (((ofCalls calls).resolve a .failed).2.resolve b .failed).2
        = (((ofCalls calls).resolve b .failed).2.resolve a .failed).2 := by
  intro a b record calls calls'
  obtain ⟨hanswers, -, horder, hcomm⟩ := told_by_history
  refine ⟨hanswers calls a, hanswers calls b, ?_, by decide +kernel, ?_⟩
  · exact horder calls calls' a (record a 3) [.restored, .skipped] [.restored, .restored]
      .restored .skipped rfl rfl (by decide)
  · exact (hcomm (ofCalls calls) a b .failed .failed (by decide)).2.2

end Ledger

end Mend
