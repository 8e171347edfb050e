import Std.Data.ExtTreeMap
import Mend.Damage.Event
import Mend.Damage.Tally

set_option autoImplicit false

/-! # The ledger: damage whose cells have not all come out

Each damage that was taken in has a record with the number of its cells still to come out. The
cell that brings this number to zero closes the record and hands it back, which happens once. -/

namespace Mend

/-- The account of one damage in progress. -/
structure Record where
  damage : DamageId
  world : WorldName
  origin : Pos
  intensity : Count
  /-- Cells that have not come out yet. -/
  remaining : Count
  tally : Tally 4294967295
  /-- The tick on which the damage was taken in. -/
  submitted : Tick
deriving DecidableEq, Inhabited

/-- The record after one more cell has come out. -/
def Record.resolve (r : Record) (o : Outcome) : Record :=
  { r with remaining := r.remaining - 1, tally := r.tally.record o }

/-- All records of damage in progress. -/
structure Ledger where
  records : Std.ExtTreeMap DamageId Record
deriving Inhabited

namespace Ledger

/-- The ledger without records. -/
def empty : Ledger := ⟨∅⟩

/-- Start a record. One without cells is left out, since nothing would ever close it. -/
def register (l : Ledger) (r : Record) : Ledger :=
  if r.remaining.val = 0 then l else ⟨l.records.insert r.damage r⟩

/-- Note that one cell of the given damage came out. Returns the record if that was the last
    cell; unknown damage changes nothing. -/
def resolve (l : Ledger) (id : DamageId) (o : Outcome) : Option Record × Ledger :=
  match l.records[id]? with
  | none => (none, l)
  | some r =>
    let r' := r.resolve o
    if r'.remaining.val = 0 then (some r', ⟨l.records.erase id⟩)
    else (none, ⟨l.records.insert id r'⟩)

/-- The number of cells of the given damage still to come out. -/
def remaining? (l : Ledger) (id : DamageId) : Option Count := l.records[id]?.map Record.remaining

/-- Whether the given damage is in progress. -/
def contains (l : Ledger) (id : DamageId) : Bool := l.records.contains id

/-- The number of records. -/
def size (l : Ledger) : Nat := l.records.size

/-- Whether no damage is in progress. -/
def isEmpty (l : Ledger) : Bool := l.records.isEmpty

/-- Drop every record. Returns the number of records dropped. -/
def clear (l : Ledger) : Nat × Ledger := (l.size, empty)

/-- Resolving a cell of damage that has no record changes nothing. -/
theorem resolve_of_not_contains {l : Ledger} {id : DamageId} (h : l.records[id]? = none)
    (o : Outcome) : l.resolve id o = (none, l) := by
  simp [resolve, h]

end Ledger

end Mend
