import Mend.Damage.IdText
import Mend.Scheduler.Host

set_option autoImplicit false

/-! # Journals: listeners that keep every completion -/

namespace Mend

/-- The completions that were reported, in order. A refusing journal keeps them too, but then
    says that it failed. -/
structure Journal where
  entries : List Completion
  refuses : Bool
deriving DecidableEq, Inhabited

namespace Journal

/-- The journal without entries. -/
def empty : Journal := ⟨[], false⟩

/-- A journal without entries that refuses. -/
def refusing : Journal := ⟨[], true⟩

/-- Take note of a completion. -/
def note (j : Journal) (c : Completion) : Except ListenerError Unit × Journal :=
  (if j.refuses then .error ⟨s!"cleanup rejected for event {c.damage.text}"⟩ else .ok (),
   { j with entries := j.entries ++ [c] })

instance : Listener Journal := ⟨note⟩

/-- How often the given damage was reported. -/
def callsFor (j : Journal) (id : DamageId) : Nat :=
  (j.entries.filter fun c => c.damage = id).length

/-- Take out all entries. -/
def drain (j : Journal) : List Completion × Journal := (j.entries, { j with entries := [] })

end Journal

end Mend
