import Mend.Atlas.Basic
import Mend.Run.Loop

set_option autoImplicit false

/-! # What can go wrong in a session -/

namespace Mend

/-- Why a session could not be opened or could not go on. -/
inductive SessionError where
  | settings (cause : SettingsError)
  | scheduler (cause : SchedulerError)
  | atlas (cause : AtlasError)
  | run (cause : RunError)
  | scenario (detail : String)

namespace SessionError

/-- The wording of a session error. -/
def message : SessionError → String
  | settings cause => s!"config error: {cause.message}"
  | scheduler cause => s!"scheduler error: {cause.message}"
  | atlas cause => s!"world error: {cause.message}"
  | run cause => s!"runner error: {cause.message}"
  | scenario detail => s!"scenario error: {detail}"

/-- A text in quotes. -/
def inQuotes (s : String) : String := "\"" ++ s ++ "\""

/-- A name with what belongs to it in braces. -/
def labelled (name inner : String) : String := name ++ " \x7b " ++ inner ++ " \x7d"

/-- The line that reports the error when the program ends with it. Causes that come from reading
    a file are cut short to their kind. -/
def line : SessionError → String
  | settings (.invalid reason) =>
    "Error: " ++ labelled "Config" ("source: " ++
      labelled "Invalid" ("reason: " ++ inQuotes reason))
  | settings (.malformed _) => "Error: Config \x7b source: Yaml"
  | settings (.unreadable _) => "Error: Config \x7b source: Io"
  | atlas (.emptyMaterial pos) =>
    "Error: " ++ labelled "World" ("source: EmptyMaterial(" ++
      labelled "CellPos" s!"x: {pos.x}, y: {pos.y}, z: {pos.z}" ++ ")")
  | scenario _ => "Error: Scenario"
  | e => "Error: " ++ e.message

end SessionError

end Mend
