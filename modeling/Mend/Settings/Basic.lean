import Mend.Pacing

set_option autoImplicit false

/-! # Settings: what can be configured, with its defaults and limits -/

namespace Mend

/-- Why settings could not be used. -/
inductive SettingsError where
  /-- The file could not be read as text. -/
  | unreadable (detail : String)
  /-- The text is not a settings document. -/
  | malformed (detail : String)
  /-- The space inside a scalar of the text does not fit. The program cannot go on then. -/
  | noRoom
  /-- The document holds a value that cannot be used. -/
  | invalid (reason : String)
deriving DecidableEq, Inhabited

/-- The wording of a settings error. -/
def SettingsError.message : SettingsError → String
  | .unreadable detail => s!"failed to read config file: {detail}"
  | .malformed detail => s!"failed to parse config YAML: {detail}"
  | .noRoom => "failed to parse config YAML: no room for the space in a scalar"
  | .invalid reason => s!"invalid configuration: {reason}"

/-- The settings of the scheduler. All durations are in ticks. -/
structure Regeneration where
  /-- 0 (off) to 10 (fastest); larger numbers can be written but are refused. -/
  speed : Capped 255
  naturalBase : Count
  placedBase : Count
  /-- The extra delay for each level above the lowest cell of the same damage. -/
  perLevel : Count
  /-- The largest random delay. -/
  maxJitter : Count
  /-- The least delay; below one it counts as one. -/
  minDelay : Count
  /-- The time between the releases of two layers. -/
  layerInterval : Count
  /-- The hazard radius for each unit of intensity. -/
  radiusPerIntensity : Count
  /-- The largest number of pending cells, 0 for any number. -/
  maxPending : Count
  /-- The seed of the random delays, if they are to be reproducible. -/
  seed : Option Tick
deriving DecidableEq, Inhabited

namespace Regeneration

/-! What a setting is that is not written down. The limit on pending cells and the seed have no
such value of their own: without them there is no limit, and no seed. -/

def defaultSpeed : Capped 255 := 5

def defaultNaturalBase : Count := 100

def defaultPlacedBase : Count := 200

def defaultPerLevel : Count := 2

def defaultMaxJitter : Count := 20

def defaultMinDelay : Count := 1

def defaultLayerInterval : Count := 2

def defaultRadiusPerIntensity : Count := 2

end Regeneration

/-- What the scheduler uses where nothing else is set. -/
def Regeneration.default : Regeneration where
  speed := defaultSpeed
  naturalBase := defaultNaturalBase
  placedBase := defaultPlacedBase
  perLevel := defaultPerLevel
  maxJitter := defaultMaxJitter
  minDelay := defaultMinDelay
  layerInterval := defaultLayerInterval
  radiusPerIntensity := defaultRadiusPerIntensity
  maxPending := 0
  seed := none

/-- Refuse a speed beyond the fastest. -/
def Regeneration.validate (r : Regeneration) : Except SettingsError Unit :=
  if 10 < r.speed.val then
    .error (.invalid s!"regeneration.speed must be between 0 and 10, got {r.speed}")
  else .ok ()

/-- The delay rule that the settings describe. -/
def Regeneration.pacing (r : Regeneration) : Pacing where
  speed := Speed.ofNat r.speed.val
  naturalBase := r.naturalBase
  placedBase := r.placedBase
  perLevel := r.perLevel
  maxJitter := r.maxJitter
  minDelay := if r.minDelay.val = 0 then 1 else r.minDelay

/-- The limit on pending cells that the settings describe. -/
def Regeneration.cap (r : Regeneration) : Option Nat :=
  if r.maxPending.val = 0 then none else some r.maxPending.val

/-- All settings. -/
structure Settings where
  regeneration : Regeneration
  /-- Milliseconds from one tick to the next. -/
  tickInterval : Tick
  /-- What the log shows. -/
  logLevel : String
deriving DecidableEq, Inhabited

/-- The interval between ticks where none is written down. -/
def Settings.defaultTickInterval : Tick := 50

/-- What the log shows where nothing is written down. -/
def Settings.defaultLogLevel : String := "info"

/-- What holds where nothing else is set. -/
def Settings.default : Settings where
  regeneration := Regeneration.default
  tickInterval := defaultTickInterval
  logLevel := defaultLogLevel

/-- Refuse settings that cannot be used; the speed is looked at first. -/
def Settings.validate (s : Settings) : Except SettingsError Unit :=
  match s.regeneration.validate with
  | .error e => .error e
  | .ok () =>
    if s.tickInterval.val = 0 then
      .error (.invalid "runner.tick_interval_ms must be at least 1")
    else .ok ()

/-- The settings themselves, if they can be used. -/
def Settings.validated (s : Settings) : Except SettingsError Settings :=
  match s.validate with
  | .error e => .error e
  | .ok () => .ok s

end Mend
