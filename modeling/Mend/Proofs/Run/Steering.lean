import Mend.Scenario.Script

set_option autoImplicit false

/-! # Steering a run by moves

An observer gets the controls of a run into its hands. `Steering` says that it does nothing to them
but what the switches are for, one move after the other. What some moves come to is then said by the
moves: whether a stop is among them, and which speed is the last one asked for. -/

namespace Mend

namespace Controls

/-- What can be done to the controls of a run. -/
inductive Move where
  | pause
  | resume
  | stop
  | speed (n : Nat)
  | interval (ms : Tick)
deriving DecidableEq

/-- The speed that a move asks for, if it asks for one. -/
def Move.speed? : Move → Option Speed
  | .speed n => some (Speed.ofNat n)
  | _ => none

/-- The speed asked for last. -/
def lastSpeed? (ms : List Move) : Option Speed := (ms.filterMap Move.speed?).getLast?

/-- The controls after a move. -/
def move (c : Controls) : Move → Controls
  | .pause => c.pause
  | .resume => c.resume
  | .stop => c.requestStop
  | .speed n => c.requestSpeed (Speed.ofNat n)
  | .interval ms => (c.setInterval ms).2

/-- The same controls, with the given speed asked for or none. -/
def asking (c : Controls) (asked : Option Speed) : Controls := { c with speedRequest := asked }

/-- The controls after some moves. -/
def moves (c : Controls) (ms : List Move) : Controls := ms.foldl move c

variable (c : Controls) (ms more : List Move)

theorem moves_append : c.moves (ms ++ more) = (c.moves ms).moves more := List.foldl_append

theorem lastSpeed?_append : lastSpeed? (ms ++ more) = (lastSpeed? more).or (lastSpeed? ms) := by
  simp [lastSpeed?, List.filterMap_append, List.getLast?_append]

theorem lastSpeed?_cons (m : Move) : lastSpeed? (m :: ms) = (lastSpeed? ms).or m.speed? := by
  rw [← List.singleton_append, lastSpeed?_append]
  cases m <;> rfl

theorem move_interval (ms : Tick) : c.move (.interval ms)
    = { c with interval := if ms.val = 0 then c.interval else ms } := by
  simp only [move, setInterval]
  split <;> rfl

theorem stopRequested_moves :
    (c.moves ms).stopRequested = (c.stopRequested || decide (.stop ∈ ms)) := by
  induction ms generalizing c with
  | nil => simp [moves]
  | cons m rest ih =>
      have hone : (c.move m).stopRequested = (c.stopRequested || decide (.stop = m)) := by
        cases m with
        | interval ms => simp [move_interval]
        | _ => simp [move, pause, resume, requestStop, requestSpeed]
      rw [moves, List.foldl_cons]
      refine (ih (c.move m)).trans ?_
      rw [hone, Bool.or_assoc, ← Bool.decide_or]
      simp only [List.mem_cons]

theorem maxTicks_moves : (c.moves ms).maxTicks = c.maxTicks := by
  induction ms generalizing c with
  | nil => rfl
  | cons m rest ih =>
      refine (ih (c.move m)).trans ?_
      cases m with
      | interval ms => rw [move_interval]
      | _ => rfl

/-- Moves leave the speed that was asked for unless they ask for one themselves. -/
theorem moves_asking (asked : Option Speed) :
    (c.asking asked).moves ms = (c.moves ms).asking ((lastSpeed? ms).or asked) := by
  induction ms generalizing c asked with
  | nil => rfl
  | cons m rest ih =>
      have hone : (c.asking asked).move m = (c.move m).asking (m.speed?.or asked) := by
        cases m with
        | interval ms =>
            rw [move_interval, move_interval]
            rfl
        | _ => rfl
      rw [moves, List.foldl_cons, hone, lastSpeed?_cons, Option.or_assoc]
      exact ih (c.move m) (m.speed?.or asked)

/-- The speed asked for in the end is the last one that the moves ask for. -/
theorem moves_start (interval maxTicks : Tick) :
    (start interval maxTicks).moves ms
      = ((start interval maxTicks).moves ms).asking (lastSpeed? ms) := by
  have h := moves_asking (start interval maxTicks) ms none
  rwa [Option.or_none] at h

end Controls

open Controls (Move)

/-- Observers that do nothing to the controls but move them. To the ground they may do anything,
    and they may send what they like. -/
class Steering (ο ω : Type) [Observer ο ω] where
  /-- The moves made after a tick. -/
  afterTick : ο → TickReport → Reach ω → List Move
  /-- The moves made while the run is held by a pause. -/
  duringPause : ο → Reach ω → List Move
  controls_afterTick : ∀ o report (reach : Reach ω),
    (Observer.afterTick o report reach).2.controls = reach.controls.moves (afterTick o report reach)
  controls_duringPause : ∀ o (reach : Reach ω),
    (Observer.duringPause o reach).2.controls = reach.controls.moves (duringPause o reach)

/-- The observer that does nothing makes no moves. -/
instance {ω : Type} : Steering Unit ω where
  afterTick _ _ _ := []
  duringPause _ _ := []
  controls_afterTick _ _ _ := rfl
  controls_duringPause _ _ := rfl

/-- A script leaves the controls alone. -/
instance : Steering Script Atlas where
  afterTick _ _ _ := []
  duringPause _ _ := []
  controls_afterTick _ _ _ := rfl
  controls_duringPause _ _ := rfl

/-- An account of the reports that an observer has been shown. -/
structure Observer.Remembers {ο : Type} (ω : Type) [Observer ο ω] (seen : ο → List TickReport) :
    Prop where
  afterTick : ∀ o report (reach : Reach ω),
    seen (Observer.afterTick o report reach).1 = seen o ++ [report]
  duringPause : ∀ o (reach : Reach ω), seen (Observer.duringPause o reach).1 = seen o

end Mend
