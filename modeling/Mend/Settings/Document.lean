import Mend.Settings.Basic
import Mend.Text.Blank
import Mend.Yaml.Section

set_option autoImplicit false

/-! # Settings documents

A settings document is a table of sections, each a table of single settings. What it leaves out
keeps its default, a section as a whole or each setting for itself; names that mean nothing here
are passed over, whatever stands under them. -/

namespace Mend

open Yaml

namespace Settings

/-! ## Single values -/

/-- A number up to a cap, as a plain scalar. -/
def readNumber? {m : Nat} : Node → Option (Capped m)
  | .scalar .plain s => (natural? s.toList).bind Capped.ofNat?
  | _ => none

/-- A number up to a cap, or nothing. -/
def readOptional? {m : Nat} : Node → Option (Option (Capped m))
  | .scalar .plain s =>
    if isNull s then some none else (readNumber? (.scalar .plain s)).map some
  | _ => none

/-- The text of any scalar. -/
def readText? : Node → Option String
  | .scalar _ s => some s
  | _ => none

end Settings

/-! ## Sections -/

open Settings in
/-- The settings of the scheduler. -/
def Regeneration.ofSection? (s : Section Node) : Option Regeneration := do
  let speed ← s.readOr "speed" defaultSpeed readNumber?
  let naturalBase ← s.readOr "natural_base_delay_ticks" defaultNaturalBase readNumber?
  let placedBase ← s.readOr "placed_base_delay_ticks" defaultPlacedBase readNumber?
  let perLevel ← s.readOr "per_level_delay_ticks" defaultPerLevel readNumber?
  let maxJitter ← s.readOr "max_jitter_ticks" defaultMaxJitter readNumber?
  let minDelay ← s.readOr "min_delay_ticks" defaultMinDelay readNumber?
  let layerInterval ← s.readOr "layer_interval_ticks" defaultLayerInterval readNumber?
  let radiusPerIntensity ←
    s.readOr "hook_radius_per_intensity" defaultRadiusPerIntensity readNumber?
  let maxPending ← s.readOr "max_pending_cells" 0 readNumber?
  let seed ← s.readOr "seed" none readOptional?
  return { speed, naturalBase, placedBase, perLevel, maxJitter, minDelay, layerInterval,
           radiusPerIntensity, maxPending, seed }

namespace Settings

/-- The settings of the loop of ticks. -/
def runnerOfSection? (s : Section Node) : Option Tick :=
  s.readOr "tick_interval_ms" defaultTickInterval readNumber?

/-- The settings of the log. -/
def loggingOfSection? (s : Section Node) : Option String :=
  s.readOr "level" defaultLogLevel readText?

/-- The settings that a document holds. -/
def ofNode? (v : Node) : Option Settings := do
  let d := default
  let s ← v.section?
  let regeneration ← s.readOr "regeneration" d.regeneration fun v =>
    v.section?.bind Regeneration.ofSection?
  let tickInterval ← s.readOr "runner" d.tickInterval fun v =>
    v.section?.bind runnerOfSection?
  let logLevel ← s.readOr "logging" d.logLevel fun v => v.section?.bind loggingOfSection?
  return { regeneration, tickInterval, logLevel }

/-! ## Documents -/

/-- The settings in a text, whether they can be used or not. -/
def read (text : String) : Except SettingsError Settings :=
  match Node.readText ofNode? text with
  | .ok s => .ok s
  | .error .malformed => .error (.malformed "not a settings document")
  | .error .noRoom => .error .noRoom

/-- The settings in a text, if they can be used. -/
def ofText (text : String) : Except SettingsError Settings :=
  match read text with
  | .error e => .error e
  | .ok s => s.validated

/-! ## The speed from outside -/

/-- The number that digits denote in decimal, perhaps after a plus sign and leading zeros. -/
def readDigits? (cs : List Char) : Option Nat :=
  let digits :=
    match cs with
    | '+' :: rest => rest
    | cs => cs
  if digits.isEmpty || !digits.all Decimal.isDigit then none else some (Decimal.read digits)

/-- The settings with the speed that a text from outside asks for. A text that is no number
    that a speed can be written as is passed over. -/
def withSpeedText (s : Settings) (text : Option String) : Settings :=
  match text.bind fun t => (readDigits? (trim t.toList)).bind Capped.ofNat? with
  | none => s
  | some speed => { s with regeneration := { s.regeneration with speed } }

/-- The settings in the bytes of a file, if they can be used, with the speed that a text from
    outside asks for. -/
def load (bytes : ByteArray) (speed : Option String) : Except SettingsError Settings :=
  match String.fromUTF8? bytes with
  | none => .error (.unreadable "stream did not contain valid UTF-8")
  | some text =>
    match read text with
    | .error e => .error e
    | .ok s => (s.withSpeedText speed).validated

end Settings

end Mend
