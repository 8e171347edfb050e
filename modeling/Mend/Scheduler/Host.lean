import Mend.Damage.Completion

set_option autoImplicit false

/-! # The host: what the scheduler asks of the world and whom it tells

The scheduler owns no cells. It works on any type of ground that can say whether a cell stands
empty, put content back, and signal that it did; and it reports finished damage to any type of
listener. Both may fail, and a failure may change them too. -/

namespace Mend

/-- Why content could not be put back. -/
inductive RestoreError where
  /-- There is no such world. -/
  | worldUnavailable (world : WorldName)
  /-- The cell lies in a part of the world that is not loaded. -/
  | unloaded (world : WorldName) (pos : Pos)
  /-- The content is not one that can be placed. -/
  | invalidContent (pos : Pos) (material reason : String)
deriving DecidableEq

/-- The wording of a restore error. -/
def RestoreError.message : RestoreError → String
  | .worldUnavailable world => s!"world {world} is not available"
  | .unloaded world pos => s!"cell {pos} in world {world} is not loaded"
  | .invalidContent pos material reason => s!"cannot place {material} at {pos}: {reason}"

/-- Why a restored cell could not be signalled. -/
structure SignalError where
  pos : Pos
  reason : String
deriving DecidableEq

/-- The wording of a signal error. -/
def SignalError.message (e : SignalError) : String := s!"feedback failed at {e.pos}: {e.reason}"

/-- Why a listener could not take a completion. -/
structure ListenerError where
  reason : String
deriving DecidableEq

/-- The wording of a listener error. -/
def ListenerError.message (e : ListenerError) : String :=
  s!"completion hook failed: {e.reason}"

/-- A type of ground on which cells are restored. -/
class Ground (ω : Type) where
  /-- Whether nothing that counts stands on the cell. -/
  isVacant : ω → WorldName → Pos → Bool
  /-- Put content back on the cell. -/
  restore : ω → WorldName → Pos → Content → Except RestoreError Unit × ω
  /-- Signal that the cell was restored. -/
  signal : ω → WorldName → Pos → Except SignalError Unit × ω

/-- A type of listener to completions. -/
class Listener (η : Type) where
  /-- Take note of a completion. -/
  notify : η → Completion → Except ListenerError Unit × η

/-- The listener that takes no note of anything. -/
instance : Listener Unit := ⟨fun u _ => (.ok (), u)⟩

/-- A listener that may be missing. -/
instance {η : Type} [Listener η] : Listener (Option η) where
  notify
    | none, _ => (.ok (), none)
    | some h, c =>
      let (r, h) := Listener.notify h c
      (r, some h)

end Mend
