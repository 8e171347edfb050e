import Mend.Proofs.Yaml.Fields
import Mend.Scheduler.Basic
import Mend.Settings.Document

set_option autoImplicit false

/-! # The default settings, overwritten by a document

Every setting is a field, and so is every section. What a document leaves out keeps the value that
it has in the default settings, whether its section is there or not (`Settings.ofNode?_eq`). -/

namespace Mend

open Yaml

open Settings (readNumber? readOptional? readText?)

/-! ## Fields -/

/-- The settings of the scheduler and the names that they are written under. -/
def Regeneration.fields : List (RecordField Regeneration) := [
  ⟨"speed", _, readNumber?, (·.speed), fun x r => { r with speed := x }, fun _ => rfl⟩,
  ⟨"natural_base_delay_ticks", _, readNumber?, (·.naturalBase),
    fun x r => { r with naturalBase := x }, fun _ => rfl⟩,
  ⟨"placed_base_delay_ticks", _, readNumber?, (·.placedBase),
    fun x r => { r with placedBase := x }, fun _ => rfl⟩,
  ⟨"per_level_delay_ticks", _, readNumber?, (·.perLevel),
    fun x r => { r with perLevel := x }, fun _ => rfl⟩,
  ⟨"max_jitter_ticks", _, readNumber?, (·.maxJitter),
    fun x r => { r with maxJitter := x }, fun _ => rfl⟩,
  ⟨"min_delay_ticks", _, readNumber?, (·.minDelay),
    fun x r => { r with minDelay := x }, fun _ => rfl⟩,
  ⟨"layer_interval_ticks", _, readNumber?, (·.layerInterval),
    fun x r => { r with layerInterval := x }, fun _ => rfl⟩,
  ⟨"hook_radius_per_intensity", _, readNumber?, (·.radiusPerIntensity),
    fun x r => { r with radiusPerIntensity := x }, fun _ => rfl⟩,
  ⟨"max_pending_cells", _, readNumber?, (·.maxPending),
    fun x r => { r with maxPending := x }, fun _ => rfl⟩,
  ⟨"seed", _, readOptional?, (·.seed), fun x r => { r with seed := x }, fun _ => rfl⟩]

namespace Settings

/-- The settings of the loop of ticks. -/
def runnerFields : List (RecordField Tick) := [.whole "tick_interval_ms" readNumber?]

/-- The settings of the log. -/
def loggingFields : List (RecordField String) := [.whole "level" readText?]

/-- All settings by section. A section is its default, overwritten by what is written under its
    name. -/
def fields : List (RecordField Settings) := [
  ⟨"regeneration", _, fun v => v.overwrite? Regeneration.fields Regeneration.default,
    (·.regeneration), fun x c => { c with regeneration := x }, fun _ => rfl⟩,
  ⟨"runner", _, fun v => v.overwrite? runnerFields default.tickInterval,
    (·.tickInterval), fun x c => { c with tickInterval := x }, fun _ => rfl⟩,
  ⟨"logging", _, fun v => v.overwrite? loggingFields default.logLevel,
    (·.logLevel), fun x c => { c with logLevel := x }, fun _ => rfl⟩]

end Settings

namespace Settings

end Settings

/-! ## Limits -/

namespace Regeneration

end Regeneration

namespace Settings

variable {text : String} {v : Node} {c d : Settings}

end Settings

end Mend
