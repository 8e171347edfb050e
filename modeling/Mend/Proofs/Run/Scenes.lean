import Mend.Session.Basic
import Mend.Proofs.Run.Salvos

set_option autoImplicit false

/-! # The rounds of a scripted run as scenes

A round of a scripted run ticks, clears the fire of the completions in the report, and sets off the
blasts of the tick. `Run.scenes` lists the rounds as scenes: the report of the tick, and the stage
on which the blasts go off. Clearing and setting off are together what the script does after a tick
(`Stage.afterTick_eq`), so the round leaves the run on the stage that the salvo leaves
(`Scene.Between`). Where nobody but the script acts on the run, each scene begins where the one
before it has left the run; the induction is on the rounds (`Run.Unattended.scenes`). -/

namespace Mend

open Script

/-- The stage once the fire of the completions in a report has been cleared. -/
def Script.Stage.cleared (s : Stage) (report : TickReport) : Stage :=
  if s.script.clearFire then report.completions.foldl Stage.cleanUp s else s

/-- After a tick fire is cleared first, and then the blasts of the tick go off. -/
theorem Script.Stage.afterTick_eq (s : Stage) (report : TickReport) :
    s.afterTick report = (s.cleared report).detonateDue report.tick := rfl

/-- A round of a scripted run: the report of its tick, and the stage once the fire of the
    completions in it has been cleared. -/
structure Scene where
  report : TickReport
  stage : Stage

/-- The blasts that go off in a scene. -/
def Scene.salvo (x : Scene) : Salvo := ⟨x.report.tick, x.stage⟩

namespace Run

/-- The scene that a tick of the run opens. -/
def sceneOf (r : Run Atlas Journal Script) (t : Scheduler.Ticked Atlas Journal) : Scene :=
  ⟨t.report, (Stage.mk r.observer t.world t.scheduler.funnel).cleared t.report⟩

/-- What the next round of a run comes to, unless it is stopped or its tick fails. -/
def scene? (r : Run Atlas Journal Script) : Option Scene :=
  let r := r.sitOutPause
  if r.controls.stopRequested then none
  else
    let r := r.applySpeed
    match r.scheduler.tick r.world r.listener with
    | .error _ => none
    | .ok t => some (r.sceneOf t)

/-- What the rounds of a run until idle come to, if they are at most so many. -/
def scenes : Nat → Run Atlas Journal Script → List Scene
  | 0, _ => []
  | n + 1, r => r.scene?.toList ++ match r.round .untilIdle with
    | (.goesOn, r) => r.scenes n
    | (.ended _, _) | (.failed _, _) => []

/-- The stage on which the script of a run stands. -/
def stage (r : Run Atlas Journal Script) : Stage := ⟨r.observer, r.world, r.scheduler.funnel⟩

end Run

/-- The scene is that of a tick which takes the run `r` to `r'`. -/
structure Scene.Between (x : Scene) (r r' : Run Atlas Journal Script) : Prop where
  moves : r.tick = .ok r'
  /-- The tick is one of the scheduler on the world of the run, and its salvo leaves what the script
      makes of the tick. -/
  ticked : ∃ t, r.scheduler.tick r.world r.listener = .ok t ∧ x = r.sceneOf t ∧
    x.salvo.left = (Stage.mk r.observer t.world t.scheduler.funnel).afterTick t.report
  /-- The run then stands where the salvo has left it. -/
  left : r'.stage = x.salvo.left

/-- Nothing has been asked of a run from outside. -/
structure Controls.Untouched (c : Controls) : Prop where
  paused : c.paused = false
  stopRequested : c.stopRequested = false
  speedRequest : c.speedRequest = none

namespace Run

section Rounds

variable {ω η ο : Type} [Ground ω] [Listener η] [Observer ο ω] {mode : RunMode} {r r' : Run ω η ο}

/-- The rounds after one that goes on are those of the run that it leaves. -/
theorem rounds_of_goesOn (h : r.round mode = (.goesOn, r')) (k : Nat) :
    rounds mode (k + 1) r = rounds mode k r' := by
  rw [rounds, h]

/-- No round comes after one that ends the run. -/
theorem rounds_of_ended {ending : Ending} (h : r.round mode = (.ended ending, r')) (k : Nat) :
    rounds mode (k + 1) r = (.ok ending, r') := by
  rw [rounds, h]

end Rounds

/-- Nobody but its script acts on the run. -/
def Unattended (r : Run Atlas Journal Script) : Prop := r.controls.Untouched

variable {r r' : Run Atlas Journal Script}

/-- A tick of a run opens a scene, and the script leaves the controls alone. -/
theorem between_of_tick {t : Scheduler.Ticked Atlas Journal}
    (ht : r.scheduler.tick r.world r.listener = .ok t) (hmoves : r.tick = .ok r') :
    (r.sceneOf t).Between r r' ∧ r'.controls = r.controls := by
  have hleft : (r.sceneOf t).salvo.left
      = (Stage.mk r.observer t.world t.scheduler.funnel).afterTick t.report := by
    rw [Stage.afterTick_eq]
    rfl
  have hafter := hmoves
  rw [tick, ht] at hafter
  cases hafter
  refine ⟨⟨hmoves, ⟨t, ht, rfl, hleft⟩, ?_⟩, rfl⟩
  rw [hleft]
  rfl

namespace Unattended

theorem sitOutPause (h : r.Unattended) : r.sitOutPause = r := by
  simp [Run.sitOutPause, Controls.holds, h.paused]

theorem applySpeed (h : r.Unattended) : r.applySpeed = r := by
  simp [Run.applySpeed, Controls.takeSpeed, h.speedRequest]

/-- A round is a tick, unless the clock has come to its end. -/
theorem round (h : r.Unattended) :
    (∃ e, r.scene? = none ∧ r.round .untilIdle = (.failed e, r)) ∨
    ∃ (x : Scene) (r' : Run Atlas Journal Script), r.scene? = some x ∧ x.Between r r' ∧
      r'.Unattended ∧
      r.round .untilIdle = ((r'.ending? .untilIdle).elim .goesOn .ended, r') := by
  rw [scene?, Run.round]
  simp only [h.sitOutPause, h.stopRequested, h.applySpeed]
  cases ht : r.scheduler.tick r.world r.listener with
  | error e =>
      refine Or.inl ⟨e, rfl, ?_⟩
      have hfailed : r.tick = .error e := by rw [Run.tick, ht]
      rw [hfailed]
      rfl
  | ok t =>
      obtain ⟨r', hmoves⟩ : ∃ r', r.tick = .ok r' := ⟨_, by rw [Run.tick, ht]⟩
      obtain ⟨hbetween, hcontrols⟩ := between_of_tick ht hmoves
      have hafter : r'.Unattended := by
        rw [Unattended, hcontrols]
        exact h
      refine Or.inr ⟨r.sceneOf t, r', rfl, hbetween, hafter, ?_⟩
      rw [hmoves]
      cases hend : r'.ending? .untilIdle <;> simp [hend]

/-- Each scene is that of one more round, and the rounds end with the last scene. -/
theorem scenes (n : Nat) (h : r.Unattended) :
    (∀ k (x : Scene), (r.scenes n)[k]? = some x →
      x.Between (Run.rounds .untilIdle k r).2 (Run.rounds .untilIdle (k + 1) r).2) ∧
    (Run.rounds .untilIdle n r).2 = (Run.rounds .untilIdle (r.scenes n).length r).2 := by
  induction n generalizing r with
  | zero => simp [Run.scenes]
  | succ n ih =>
      rcases h.round with ⟨e, hscene, hround⟩ | ⟨y, r', hscene, hbetween, hafter, hround⟩
      · have hnone : r.scenes (n + 1) = [] := by simp [Run.scenes, hscene, hround]
        rw [hnone]
        exact ⟨by simp, by rw [Run.rounds, hround]; rfl⟩
      · cases hend : r'.ending? .untilIdle with
        | some ending =>
            -- the run is over, and however many rounds there may be, this was the only one
            replace hround : r.round .untilIdle = (.ended ending, r') := by rw [hround, hend]; rfl
            have hone : r.scenes (n + 1) = [y] := by simp [Run.scenes, hscene, hround]
            have hrounds := Run.rounds_of_ended hround
            rw [hone]
            refine ⟨?_, by rw [hrounds, List.length_singleton, hrounds]⟩
            intro k x hx
            cases k with
            | zero =>
                cases hx
                rw [hrounds]
                exact hbetween
            | succ k => simp at hx
        | none =>
            -- the other scenes and rounds are those of the run that this round leaves
            replace hround : r.round .untilIdle = (.goesOn, r') := by rw [hround, hend]; rfl
            have hmore : r.scenes (n + 1) = y :: r'.scenes n := by
              simp [Run.scenes, hscene, hround]
            have hrounds := Run.rounds_of_goesOn hround
            obtain ⟨hrest, hlast⟩ := ih hafter
            rw [hmore, List.length_cons, hrounds, hrounds]
            refine ⟨?_, hlast⟩
            intro k x hx
            rw [hrounds]
            cases k with
            | zero =>
                cases hx
                exact hbetween
            | succ k =>
                rw [hrounds]
                exact hrest k x hx

end Unattended

end Run

/-- What a session comes to when it is played. -/
def Session.scenes (s : Session) : List Scene :=
  (s.run s.script).scenes (s.scheduler.clock.ticksLeft + 1)

end Mend
