import Mend.Capped

set_option autoImplicit false

/-! # Tallies: how the cells of some damage came out -/

namespace Mend

/-- How the restoration of one cell ended. -/
inductive Outcome where
  /-- The lost content was put back. -/
  | restored
  /-- Something else stood there by then; nothing was written. -/
  | skipped
  /-- The content could not be put back. -/
  | failed
deriving DecidableEq, Inhabited

/-- The word for an outcome in data files. -/
def Outcome.name : Outcome → String
  | .restored => "restored"
  | .skipped => "skipped"
  | .failed => "failed"

/-- How many cells ended in each way, every number capped at `m`. -/
structure Tally (m : Nat) where
  restored : Capped m
  skipped : Capped m
  failed : Capped m
deriving DecidableEq, Inhabited

namespace Tally

variable {m : Nat}

/-- The tally of no cells. -/
def zero : Tally m := ⟨0, 0, 0⟩

/-- The tally with one more cell. -/
def record (t : Tally m) : Outcome → Tally m
  | .restored => { t with restored := t.restored + 1 }
  | .skipped => { t with skipped := t.skipped + 1 }
  | .failed => { t with failed := t.failed + 1 }

/-- The number of cells with the given outcome. -/
def count (t : Tally m) : Outcome → Capped m
  | .restored => t.restored
  | .skipped => t.skipped
  | .failed => t.failed

/-- The number of cells in all, capped like the parts. -/
def total (t : Tally m) : Capped m := t.restored + t.skipped + t.failed

/-- The parts of two tallies added up, under the cap of the first. -/
def plus {k : Nat} (t : Tally m) (u : Tally k) : Tally m :=
  ⟨t.restored + u.restored.recap, t.skipped + u.skipped.recap, t.failed + u.failed.recap⟩

/-- Recording adds one to the number of its outcome and keeps the others. -/
theorem count_record (t : Tally m) (o p : Outcome) :
    (t.record o).count p = if p = o then t.count p + 1 else t.count p := by
  cases o <;> cases p <;> rfl

end Tally

end Mend
