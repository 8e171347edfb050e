import Mend.Damage.Event
import Mend.Intake.Pending
import Mend.Queue.Layer

set_option autoImplicit false

/-! # Sifting: which cells of some damage get a task, and in which layers

A cell is taken in unless it is pending already (from other damage, or from earlier in the same
list) or the number of pending cells has reached the cap. The cells taken in are grouped by
elevation; each task is told how far it stands above the lowest of them. -/

namespace Mend

/-- The cells that were taken in, and how many were not and why. -/
structure Sifted where
  taken : List LostCell
  alreadyPending : Count
  overCap : Count
deriving DecidableEq, Inhabited

namespace Sifted

/-- Nothing sifted yet. -/
def nothing : Sifted := ⟨[], 0, 0⟩

/-- Sift one more cell: a cell that is taken in becomes pending. -/
def step (world : WorldName) (cap : Option Nat) (s : Sifted × Pending) (cell : LostCell) :
    Sifted × Pending :=
  if s.2.contains world cell.pos then
    ({ s.1 with alreadyPending := s.1.alreadyPending + 1 }, s.2)
  else if s.2.isFull cap then
    ({ s.1 with overCap := s.1.overCap + 1 }, s.2)
  else
    ({ s.1 with taken := cell :: s.1.taken }, (s.2.insert world cell.pos).2)

/-- Sift the cells of one world in the order given. -/
def ofCells (world : WorldName) (cells : List LostCell) (pending : Pending)
    (cap : Option Nat) : Sifted × Pending :=
  let r := cells.foldl (step world cap) (nothing, pending)
  ({ r.1 with taken := r.1.taken.reverse }, r.2)

end Sifted

/-- The lowest elevation among the cells. -/
def lowestElevation? : List LostCell → Option Coord
  | [] => none
  | cell :: rest =>
    match lowestElevation? rest with
    | none => some cell.pos.y
    | some y => some (if cell.pos.y ≤ y then cell.pos.y else y)

/-- The task that restores a cell of the given damage. -/
def LostCell.task (cell : LostCell) (damage : DamageId) (world : WorldName) (base : Coord) :
    Task :=
  { damage, world, pos := cell.pos, content := cell.content, provenance := cell.provenance,
    height := Capped.clamp (cell.pos.y.val - base.val).natAbs }

/-- The tasks for the given cells, one layer for each elevation, ascending; and the lowest
    elevation, unless there are no cells. -/
def layersOf (damage : DamageId) (world : WorldName) (cells : List LostCell) :
    List Layer × Option Coord :=
  match lowestElevation? cells with
  | none => ([], none)
  | some base =>
    (cells.foldl (fun layers cell =>
      Layer.insertInto ⟨cell.pos.y, [cell.task damage world base]⟩ layers) [], some base)

theorem lowestElevation?_eq_none_iff {cells : List LostCell} :
    lowestElevation? cells = none ↔ cells = [] := by
  cases cells with
  | nil => simp [lowestElevation?]
  | cons cell rest =>
    simp only [lowestElevation?, reduceCtorEq, iff_false]
    split <;> simp

end Mend
