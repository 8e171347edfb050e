import Mend.Atlas.Basic
import Mend.Scheduler.Host

set_option autoImplicit false

/-! # Restoring cells of an atlas

An atlas serves as ground for the scheduler. Restoring leaves it alone whether a position
counts as built: what was built before it was destroyed is built again afterwards. -/

namespace Mend

namespace Atlas

/-- Put content back on a cell. A material that cannot be placed is refused first, then an
    unknown world, then a position that is not loaded. -/
def restore (a : Atlas) (name : WorldName) (pos : Pos) (content : Content) :
    Except RestoreError Unit × Atlas :=
  if a.rejected.contains content.material || content.material.isEmpty then
    (.error (.invalidContent pos content.material "material cannot be placed"), a)
  else
    match a.world? name with
    | none => (.error (.worldUnavailable name), a)
    | some w =>
      if !w.isLoaded pos then (.error (.unloaded name pos), a)
      else
        let cells :=
          if content.material = air then w.cells.erase pos else w.cells.insert pos content
        (.ok (), { a with worlds := a.worlds.insert name { w with cells } })

/-- Signal that a cell was restored, with the material that stands there now. -/
def signal (a : Atlas) (name : WorldName) (pos : Pos) : Except SignalError Unit × Atlas :=
  if a.muted then (.error ⟨pos, "feedback channel closed"⟩, a)
  else (.ok (), { a with signals := a.signals.push ⟨name, pos, a.materialAt name pos⟩ })

instance : Ground Atlas where
  isVacant a name pos := a.isVacantMaterial (a.materialAt name pos)
  restore := Atlas.restore
  signal := Atlas.signal

end Atlas

end Mend
