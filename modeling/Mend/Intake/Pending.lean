import Std.Data.ExtTreeMap
import Std.Data.ExtTreeSet
import Mend.Damage.Content

set_option autoImplicit false

/-! # Pending cells: the cells that have a task underway

A finite set of cells, each a world and a position, kept world by world. A world without
pending cells has no entry, and the number of cells is kept beside the sets. -/

namespace Mend

/-- The set of cells that have a task underway. -/
structure Pending where
  worlds : Std.ExtTreeMap WorldName (Std.ExtTreeSet Pos)
  size : Nat
deriving Inhabited

namespace Pending

/-- The empty set. -/
def empty : Pending := ⟨∅, 0⟩

/-- The pending positions of one world. -/
def cellsOf (p : Pending) (world : WorldName) : Std.ExtTreeSet Pos :=
  p.worlds[world]?.getD ∅

/-- Whether the cell is in the set. -/
def contains (p : Pending) (world : WorldName) (pos : Pos) : Bool :=
  (p.cellsOf world).contains pos

/-- Put a cell into the set. Returns whether it is new there. -/
def insert (p : Pending) (world : WorldName) (pos : Pos) : Bool × Pending :=
  if p.contains world pos then (false, p)
  else (true, ⟨p.worlds.insert world ((p.cellsOf world).insert pos), p.size + 1⟩)

/-- Take a cell out of the set. Returns whether it was there. -/
def remove (p : Pending) (world : WorldName) (pos : Pos) : Bool × Pending :=
  if p.contains world pos then
    let rest := (p.cellsOf world).erase pos
    (true, ⟨if rest.isEmpty then p.worlds.erase world else p.worlds.insert world rest, p.size - 1⟩)
  else (false, p)

/-- Whether the set is empty. -/
def isEmpty (p : Pending) : Bool := p.size == 0

/-- Whether the set has as many cells as `cap` allows; without a cap it never has. -/
def isFull (p : Pending) (cap : Option Nat) : Bool :=
  match cap with
  | none => false
  | some limit => limit ≤ p.size

/-- Empty the set. Returns how many cells it held. -/
def clear (p : Pending) : Nat × Pending := (p.size, empty)

/-! ## Membership after each operation -/

@[simp] theorem contains_empty (world : WorldName) (pos : Pos) :
    empty.contains world pos = false := by
  simp [contains, cellsOf, empty]

theorem contains_insert (p : Pending) (w v : WorldName) (a b : Pos) :
    (p.insert w a).2.contains v b = (decide (w = v ∧ a = b) || p.contains v b) := by
  unfold insert
  split
  · next h =>
    by_cases hk : w = v ∧ a = b
    · obtain ⟨rfl, rfl⟩ := hk
      simp [h]
    · simp [hk]
  · by_cases hw : w = v
    · subst hw
      simp [contains, cellsOf, Std.ExtTreeSet.contains_insert, Bool.beq_eq_decide_eq]
    · simp [contains, cellsOf, Std.ExtTreeMap.getElem?_insert, hw]

end Pending

end Mend
