import Mend.Session.Exit

set_option autoImplicit false

/-! # The program: play the scenario in the settings file of the current directory

Nothing depends on when a tick happens, so the program does not wait between ticks. -/

namespace Mend

/-- The name of the settings file. -/
def settingsFile : String := "regrowth-config.yaml"

/-- The name of the variable that overrides the speed. -/
def speedVariable : String := "REGROWTH_SPEED"

/-- Read the plan from the settings file, if there is one. -/
def readPlan : IO (Except SessionError Plan) := do
  let speed ← IO.getEnv speedVariable
  try
    return Plan.load (← IO.FS.readBinFile settingsFile) speed
  catch
    | .noFileOrDirectory _ _ _ => return Plan.withoutFile speed
    | e => return .error (.settings (.unreadable (toString e)))

/-- A seed for runs whose settings name none. -/
def freshSeed : IO Tick := do
  return Capped.clamp (← IO.rand 0 18446744073709551615)

end Mend

/-- Play, print the summary if the log shows it, and end with the code that tells how it went. -/
def main : IO UInt32 := do
  let exit := Mend.Exit.ofPlan (← Mend.readPlan) (← Mend.freshSeed)
  if let some summary := exit.summary then
    IO.println (Mend.Exit.summaryHeading ++ summary)
  if let some failure := exit.failure then
    IO.eprintln failure
  return UInt32.ofNat exit.code
