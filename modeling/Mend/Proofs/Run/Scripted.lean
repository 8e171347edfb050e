import Mend.Proofs.Atlas.Firing
import Mend.Proofs.Run.Scenes
import Mend.Proofs.Scenario.Terrain
import Mend.Proofs.Scheduler.Conservation

set_option autoImplicit false

/-! # Scripted scenarios run to the end

A session sets off the blasts of tick 0 before its first tick, and after each tick those of that
tick, scene after scene. The induction is on the rounds. What it carries (`Session.Playing`) is that
the scheduler has done a run of deeds, its funnel taking in what the salvos send, that the salvos so
far perform the scenario, and that the agenda of the script has the cues of later ticks. An idle
scheduler and an empty agenda then say that everything has gone off and has come to an end
(`plays_to_the_end`). -/

namespace Mend

open Script

/-! ## How the rounds of a run end -/

namespace Run

/-- There is nothing left to do, and no blast is left to go off. -/
structure Finished (r : Run Atlas Journal Script) : Prop where
  idle : r.scheduler.isIdle = true
  cues : r.observer.cues.isEmpty = true

theorem finished_of_ending? {r : Run Atlas Journal Script}
    (h : r.ending? .untilIdle = some .idle) : r.Finished := by
  unfold ending? at h
  split_ifs at h with hidle
  · simp only [Bool.and_eq_true, Bool.not_eq_true', Observer.hasPendingWork,
      Script.hasPendingWork, Bool.not_eq_false'] at hidle
    exact ⟨hidle.1.2, hidle.2⟩
  · cases h

end Run

/-! ## What a round does -/

namespace Scheduler

/-- Sending leaves nothing behind of what a single sending leaves nothing of. -/
theorem gather_send {α : Type} {f : Scheduler → Deed → List α} (hf : ∀ s p, f s (.send p) = [])
    (s : Scheduler) (ps : List Parcel) : gather f s (ps.map .send) = [] := by
  induction ps generalizing s with
  | nil => rfl
  | cons p rest ih => rw [List.map_cons, gather, hf, ih, List.append_nil]

theorem handedIn_send (ps : List Parcel) : handedIn (ps.map .send) = ps := by
  rw [handedIn, List.filterMap_map]
  exact List.filterMap_some

/-- A tick empties the funnel, and reports a verdict on all that was waiting in it. -/
theorem funnel_of_tick {ω η : Type} [Ground ω] [Listener η] {s : Scheduler} {world : ω}
    {listener : η} {t : Ticked ω η} (h : s.tick world listener = .ok t) :
    t.scheduler.funnel = s.funnel.drained ∧
      t.report.intake.map Verdict.damage = s.funnel.waiting.map Parcel.id := by
  rcases s.tick_cases world listener with ⟨e, -, herror⟩ | ⟨clock, -, hok⟩
  · rw [h] at herror
    cases herror
  · rw [h] at hok
    cases hok
    obtain ⟨_, _, _, _, _, _, heq⟩ := s.prepared_eq clock
    refine ⟨?_, (s.atIntake clock).map_damage_acceptAll s.funnel.waiting⟩
    rw [settleAll_eq]
    show (s.prepared clock).funnel = _
    rw [heq]

end Scheduler

/-- A journal keeps all that it hears. -/
theorem Journal.entries_hear (j : Journal) (cs : List Completion) :
    (Listener.hear j cs).entries = j.entries ++ cs := by
  induction cs generalizing j with
  | nil => exact (List.append_nil _).symm
  | cons c rest ih =>
      refine (ih (j.note c).2).trans ?_
      rw [Journal.note, List.append_assoc]
      rfl

namespace Session

/-- A run of a session for the plan whose scheduler was `fresh` at first, in which the given salvos
    have gone off with identifiers from the given supply and the ticks have given the given
    reports. -/
structure Playing (plan : Plan) (ids : Nat → DamageId) (fresh : Scheduler) (salvos : List Salvo)
    (reports : List TickReport) (r : Run Atlas Journal Script) : Prop where
  controls : r.controls = Controls.start plan.settings.tickInterval plan.scenario.maxTicks
  scheduler : ∃ deeds, r.scheduler = fresh.run deeds ∧
    handedIn deeds = salvos.flatMap Salvo.parcels ∧ fresh.reports deeds = reports ∧
    fresh.verdicts deeds = reports.flatMap TickReport.intake
  journal : r.listener.entries = reports.flatMap TickReport.completions
  clock : r.scheduler.clock.now.val = reports.length
  ticks : r.ticks.val = reports.length
  paired : salvos.length = reports.length + 1
  performed : plan.scenario.Performed ids salvos
  left : plan.scenario.Left r.observer.cues salvos.length
  ready : r.stage.Ready plan.scenario.world ids (salvos.flatMap Salvo.blasts).length
  taken : salvos.map (·.parcels.map Parcel.id)
    = reports.map (·.intake.map Verdict.damage) ++ [r.scheduler.funnel.waiting.map Parcel.id]

namespace Playing

variable {plan : Plan} {ids : Nat → DamageId} {fresh : Scheduler} {salvos : List Salvo}
  {reports : List TickReport} {r r' : Run Atlas Journal Script}

theorem unattended (h : Playing plan ids fresh salvos reports r) : r.Unattended := by
  rw [Run.Unattended, h.controls]
  exact ⟨rfl, rfl, rfl⟩

/-- The deeds of a tick and of the salvo after it. -/
theorem deeds_concat {deeds : List Deed} {t : Scheduler.Ticked Atlas Journal}
    (ht : (fresh.run deeds).tick r.world r.listener = .ok t)
    (hopen : (fresh.run deeds).funnel.closed = false) (ps : List Parcel) :
    let more := deeds ++ .tick r.world r.listener :: ps.map .send
    fresh.run more
        = { t.scheduler with funnel := { (fresh.run deeds).funnel with waiting := ps } } ∧
      handedIn more = handedIn deeds ++ ps ∧
      fresh.reports more = fresh.reports deeds ++ [t.report] ∧
      fresh.verdicts more = fresh.verdicts deeds ++ t.report.intake := by
  have hafter : (fresh.run deeds).after (.tick r.world r.listener) = t.scheduler := by
    rw [Scheduler.after, ht]
  have hfunnel := (Scheduler.funnel_of_tick ht).1
  refine ⟨?_, ?_, ?_, ?_⟩
  · rw [Scheduler.run_append]
    show ((fresh.run deeds).after (.tick r.world r.listener)).run (ps.map .send) = _
    rw [hafter, Scheduler.run_send (by rw [hfunnel]; exact hopen), hfunnel]
    rfl
  · rw [handedIn_append]
    exact congrArg (handedIn deeds ++ ·) (Scheduler.handedIn_send ps)
  · rw [Scheduler.reports, Scheduler.gather_append, Scheduler.gather,
      Scheduler.gather_send fun _ _ => rfl, Scheduler.reportsOn, ht]
    rfl
  · rw [Scheduler.verdicts, Scheduler.gather_append, Scheduler.gather,
      Scheduler.gather_send fun _ _ => rfl, Scheduler.verdictsOn, ht, List.append_nil]
    rfl

/-- The salvo of the scene that a tick opens goes off, and is all that waits in the funnel then. -/
theorem salvo (h : Playing plan ids fresh salvos reports r) {t : Scheduler.Ticked Atlas Journal}
    (ht : r.scheduler.tick r.world r.listener = .ok t) :
    let x := (r.sceneOf t).salvo
    x.tick.val = salvos.length ∧ x.blasts = plan.scenario.blastsAt x.tick ∧
      plan.scenario.Left x.left.script.cues (salvos.length + 1) ∧
      x.left.Ready plan.scenario.world ids
        ((salvos.flatMap Salvo.blasts).length + x.blasts.length) ∧
      x.parcels.map Parcel.id
        = (List.range' (salvos.flatMap Salvo.blasts).length x.blasts.length).map ids ∧
      x.left.funnel = { r.scheduler.funnel with waiting := x.parcels } := by
  intro x
  obtain ⟨hfunnel, -⟩ := Scheduler.funnel_of_tick ht
  obtain ⟨htick, -⟩ := Scheduler.now_of_tick ht
  obtain ⟨clock, -, -, -, -, -, hworld, -⟩ := Scheduler.tick_eq_ok ht
  replace hworld : t.world = r.world.fireAll (r.scheduler.prepared clock).dueTasks := hworld
  have hstage : (Stage.mk r.observer t.world t.scheduler.funnel).Ready plan.scenario.world ids
      (salvos.flatMap Salvo.blasts).length := by
    refine ⟨h.ready.plays, ?_, by rw [hfunnel]; exact h.ready.opened, h.ready.supply,
      h.ready.next, h.ready.counted⟩
    rw [hworld]
    exact ((r.world.sameRules_fireAll _).hasWorld _).trans h.ready.found
  -- clearing fire leaves the script and the funnel as they are
  have hcleared : x.stage.Ready plan.scenario.world ids (salvos.flatMap Salvo.blasts).length ∧
      x.stage.script.cues = r.observer.cues ∧ x.stage.funnel = t.scheduler.funnel := by
    simp only [x, Scene.salvo, Run.sceneOf, Stage.cleared]
    split_ifs
    · exact ⟨hstage.foldl_cleanUp _, Stage.foldl_cleanUp _ _⟩
    · exact ⟨hstage, rfl, rfl⟩
  obtain ⟨hready, hcues, hsame⟩ := hcleared
  have hnumber : x.tick.val = salvos.length := by
    show t.report.tick.val = _
    rw [htick, h.clock, h.paired]
  obtain ⟨hblasts, hleft, hready', hids, hsent⟩ :=
    Salvo.goesOff (x := x) (hcues ▸ h.left) hnumber hready
  refine ⟨hnumber, hblasts, hleft, hready', hids, ?_⟩
  rw [hsent, hsame, hfunnel]
  rfl

/-- A scene takes in what the last salvo sent, and its own salvo goes off. -/
theorem scene (h : Playing plan ids fresh salvos reports r) {x : Scene} (hx : x.Between r r') :
    Playing plan ids fresh (salvos ++ [x.salvo]) (reports ++ [x.report]) r' := by
  obtain ⟨t, ht, rfl, -⟩ := hx.ticked
  have hmoves := hx.moves
  rw [Run.tick, ht] at hmoves
  cases hmoves
  change Playing plan ids fresh _ (reports ++ [t.report]) _
  obtain ⟨-, hintake⟩ := Scheduler.funnel_of_tick ht
  obtain ⟨htick, hnow⟩ := Scheduler.now_of_tick ht
  obtain ⟨-, -, -, -, -, -, -, hlistener⟩ := Scheduler.tick_eq_ok ht
  obtain ⟨hnumber, hblasts, hleft, hready, hids, hsent⟩ := h.salvo ht
  have hclock : t.scheduler.clock.now.val = reports.length + 1 := by rw [hnow, htick, h.clock]
  refine
    { controls := h.controls
      scheduler := ?_
      journal := ?_
      clock := by rw [List.length_append]; exact hclock
      ticks := ?_
      paired := by simp [h.paired]
      performed := h.performed.concat hnumber hblasts hids
      left := ?_
      ready := ?_
      taken := ?_ }
  · obtain ⟨deeds, hrun, hhanded, hreports, hverdicts⟩ := h.scheduler
    have hopen : r.scheduler.funnel.closed = false := h.ready.opened
    rw [hrun] at ht hopen
    obtain ⟨hrun', hhanded', hreports', hverdicts'⟩ :=
      deeds_concat ht hopen (r.sceneOf t).salvo.parcels
    refine ⟨_, ?_, ?_, by rw [hreports', hreports], ?_⟩
    · show { t.scheduler with funnel := (r.sceneOf t).salvo.left.funnel } = _
      rw [hrun', hsent, hrun]
    · rw [hhanded', hhanded, List.flatMap_append, List.flatMap_singleton]
    · rw [hverdicts', hverdicts, List.flatMap_append, List.flatMap_singleton]
  · show t.listener.entries = _
    rw [hlistener, Journal.entries_hear, h.journal, List.flatMap_append, List.flatMap_singleton]
  · have hmax := t.report.tick.le_max
    rw [htick, h.clock] at hmax
    show min (r.ticks.val + 1) _ = _
    rw [h.ticks, List.length_append, List.length_singleton]
    exact Nat.min_eq_left hmax
  · rw [List.length_append, List.length_singleton]
    exact hleft
  · rw [List.flatMap_append, List.flatMap_singleton, List.length_append]
    exact hready
  · rw [List.map_append, List.map_append, h.taken, List.map_singleton, List.map_singleton, hintake]
    show _ = _ ++ [(r.sceneOf t).salvo.left.funnel.waiting.map Parcel.id]
    rw [hsent]

/-- Whatever the rounds of a session come to, it goes on as scripted. -/
theorem rounds (n : Nat) (h : Playing plan ids fresh salvos reports r) :
    Playing plan ids fresh (salvos ++ (r.scenes n).map Scene.salvo)
      (reports ++ (r.scenes n).map Scene.report) (Run.rounds .untilIdle n r).2 ∧
    ((Run.rounds .untilIdle n r).1 = .ok .idle → (Run.rounds .untilIdle n r).2.Finished) := by
  induction n generalizing salvos reports r with
  | zero => exact ⟨by simpa [Run.scenes, Run.rounds] using h, fun hend => by cases hend⟩
  | succ n ih =>
      rcases h.unattended.round with ⟨e, hscene, hround⟩ | ⟨x, r', hscene, hbetween, -, hround⟩
      · rw [Run.scenes, Run.rounds, hscene, hround]
        exact ⟨by simpa using h, fun hend => by cases hend⟩
      · have hplaying := h.scene hbetween
        rw [Run.scenes, Run.rounds, hscene, hround]
        cases hend : r'.ending? .untilIdle with
        | none =>
            obtain ⟨hrest, hfinished⟩ := ih hplaying
            rw [List.append_assoc, List.append_assoc] at hrest
            exact ⟨by simpa using hrest, hfinished⟩
        | some ending =>
            refine ⟨by simpa using hplaying, fun heq => Run.finished_of_ending? ?_⟩
            exact hend.trans (congrArg some (Except.ok.inj heq))

end Playing

end Session

/-! ## Shutting down -/

section Reachable

variable {settings : Regeneration} {seed : Tick} {s : Scheduler}

end Reachable

/-! ## Every session -/

namespace Session

namespace Playing

variable {plan : Plan} {ids : Nat → DamageId} {fresh : Scheduler} {s : Session}
  {salvos : List Salvo} {reports : List TickReport} {last : Run Atlas Journal Script}

/-- Fewer blasts than a count can name are counted. -/
theorem counted (h : Playing plan ids fresh salvos reports last)
    (few : plan.scenario.cues.length < 4294967296) :
    last.observer.blasts.val = (salvos.flatMap Salvo.blasts).length := by
  have hle := h.performed.length_le
  have hcounted := h.ready.counted
  rw [Nat.min_eq_left (by omega)] at hcounted
  exact hcounted

end Playing

end Session

section Sessions

open Session

end Sessions

end Mend
