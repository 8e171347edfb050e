import Mend.Damage.Event

set_option autoImplicit false

/-! # The funnel: damage on its way to the scheduler

Whoever notices damage sends it through the funnel, where it waits under the identifier it got
on sending. Damage leaves in the order in which it was sent. A closed funnel takes nothing
more. -/

namespace Mend

/-- Damage with the identifier it was sent under. -/
structure Parcel where
  id : DamageId
  damage : Damage
deriving DecidableEq, Inhabited

/-- Damage waiting to be taken in, first sent first. -/
structure Funnel where
  waiting : List Parcel
  closed : Bool
deriving DecidableEq, Inhabited

/-- Why damage could not be sent. -/
inductive FunnelError where
  /-- The scheduler is gone, and the damage with the given identifier was dropped. -/
  | closed (id : DamageId)
deriving DecidableEq, Inhabited

/-- The wording of a funnel error, where `label` writes an identifier. -/
def FunnelError.message (label : DamageId → String) : FunnelError → String
  | .closed id => s!"scheduler has shut down; event {label id} was dropped"

namespace Funnel

/-- An open funnel with nothing in it. -/
def empty : Funnel := ⟨[], false⟩

/-- Send damage under the given identifier. -/
def send (f : Funnel) (id : DamageId) (damage : Damage) : Except FunnelError Funnel :=
  if f.closed then .error (.closed id)
  else .ok { f with waiting := f.waiting ++ [⟨id, damage⟩] }

/-- Take out what was sent first. -/
def receive (f : Funnel) : Option (Parcel × Funnel) :=
  match f.waiting with
  | [] => none
  | parcel :: rest => some (parcel, { f with waiting := rest })

/-- The number of waiting parcels. -/
def size (f : Funnel) : Nat := f.waiting.length

/-- Whether nothing waits. -/
def isEmpty (f : Funnel) : Bool := f.waiting.isEmpty

/-- The funnel with nothing in it. -/
def drained (f : Funnel) : Funnel := { f with waiting := [] }

/-- Drop what waits and take nothing more. -/
def close (_f : Funnel) : Funnel := ⟨[], true⟩

theorem waiting_of_send {f g : Funnel} {id : DamageId} {d : Damage} (h : f.send id d = .ok g) :
    g.waiting = f.waiting ++ [⟨id, d⟩] := by
  unfold send at h
  split at h
  · cases h
  · cases h; rfl

theorem send_of_closed {f : Funnel} (h : f.closed = true) (id : DamageId) (d : Damage) :
    f.send id d = .error (.closed id) := by
  simp [send, h]

end Funnel

end Mend
