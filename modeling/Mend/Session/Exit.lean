import Mend.LogFilter
import Mend.Session.Basic

set_option autoImplicit false

/-! # Exits: what the program says at its end -/

namespace Mend

/-- How the program ends. -/
structure Exit where
  code : Nat
  /-- The summary of the session, where the log shows it. -/
  summary : Option String
  /-- The line that reports an error. -/
  failure : Option String
deriving DecidableEq, Inhabited

namespace Exit

/-- The text before the summary in the log. -/
def summaryHeading : String := "regrowth-engine shutdown complete "

/-- The message that logs a summary: its parts, and its heading as one more. -/
def summaryMessage (s : Summary) : LogFilter.Message where
  source := "regrowth_engine"
  fields := "message" :: s.fields.map Prod.fst
  level := LogFilter.info

/-- The end where the program cannot go on and reports nothing. -/
def brokenOff : Exit := ⟨101, none, none⟩

/-- The end after an error. -/
def ofError : SessionError → Exit
  | .settings .noRoom => brokenOff
  | e => ⟨1, none, some e.line⟩

/-- Play a plan to its end. A useless log filter shows before anything is played. -/
def ofPlan (plan : Except SessionError Plan) (seed : Tick)
    (ids : Nat → DamageId := DamageId.ofNat) : Exit :=
  match plan with
  | .error e => ofError e
  | .ok plan =>
    match LogFilter.directives? plan.settings.logLevel, Session.start plan seed ids with
    | none, _ => brokenOff
    | _, .error e => ofError e
    | some directives, .ok session =>
      match session.play with
      | .error e => ofError e
      | .ok summary =>
        let shown := LogFilter.shows directives (summaryMessage summary)
        ⟨0, if shown then some summary.text else none, none⟩

end Exit

end Mend
