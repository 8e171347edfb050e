import Mend.Proofs.Scheduler.Bookkeeping

set_option autoImplicit false

/-! # What a shutdown reports

The report of a shutdown is about what was outstanding just before, which `Scheduler.stats` counts
as well. All its numbers are those of the statistics but one: as abandoned layers it gives the
number of tasks in the layers, which is the number of layers only where each holds a single
task. -/

namespace Mend

/-- As no layer is empty, there are as many tasks as layers exactly if each layer has one. -/
theorem LayerQueue.WellFilled.taskCount_eq_size_iff {q : LayerQueue} (h : q.WellFilled) :
    q.taskCount = q.size ↔ ∀ l ∈ q.layers, l.tasks.length = 1 := by
  obtain ⟨ls⟩ := q
  have hle : ∀ {ls : List Layer}, (∀ l ∈ ls, l.tasks ≠ []) →
      ls.length ≤ (ls.flatMap Layer.tasks).length := by
    intro ls hls
    induction ls with
    | nil => exact Nat.le_refl 0
    | cons l rest ih =>
        have hrest := ih fun l' hl' => hls l' (List.mem_cons_of_mem _ hl')
        have hpos := List.length_pos_iff.2 (hls l List.mem_cons_self)
        simp only [List.flatMap_cons, List.length_append, List.length_cons]
        omega
  show (ls.flatMap Layer.tasks).length = ls.length ↔ ∀ l ∈ ls, l.tasks.length = 1
  induction ls with
  | nil => exact ⟨fun _ l hl => absurd hl List.not_mem_nil, fun _ => rfl⟩
  | cons l rest ih =>
      have hfilled : ∀ l' ∈ rest, l'.tasks ≠ [] := fun l' hl' => h l' (List.mem_cons_of_mem _ hl')
      have hrest := hle hfilled
      have hpos := List.length_pos_iff.2 (h l List.mem_cons_self)
      rw [List.forall_mem_cons, ← ih hfilled, List.flatMap_cons, List.length_append,
        List.length_cons]
      omega

variable {settings : Regeneration} {seed : Tick} {s : Scheduler}

/-- **What a shutdown reports.** In every state that a run reaches, the report agrees with the
    statistics on the tick, the damage sent, the tasks, the damage in progress and the pending
    cells, and there are as many cancelled tasks as cleared cells. The abandoned layers it reports
    are the queued tasks; these are as many as the queued layers exactly if each queued layer
    holds one task. -/
theorem shutdown_report (fresh : Scheduler.new settings seed = .ok s) (deeds : List Deed) :
    (s.run deeds).shutdown.1 =
      { tick := (s.run deeds).stats.tick
        unprocessed := (s.run deeds).stats.queuedDamage
        abandonedLayers := (s.run deeds).stats.queuedTasks
        cancelledTasks := (s.run deeds).stats.queuedTasks + (s.run deeds).stats.scheduledTasks
        abandonedDamage := (s.run deeds).stats.activeDamage
        clearedCells := (s.run deeds).stats.pendingCells } ∧
    (s.run deeds).shutdown.1.cancelledTasks = (s.run deeds).shutdown.1.clearedCells ∧
    ((s.run deeds).shutdown.1.abandonedLayers = (s.run deeds).stats.queuedLayers ↔
      ∀ layer ∈ (s.run deeds).layers.layers, layer.tasks.length = 1) :=
  ⟨rfl, (Scheduler.size_pending fresh deeds).symm,
    (Scheduler.filled_of_new fresh deeds).taskCount_eq_size_iff⟩

/-- Two parcels in two layers, one of which holds two tasks. -/
theorem shutdown_report_two_layers : ∃ s, Scheduler.new Regeneration.default 7 = .ok s ∧
    let t := s.run [.submit (quarried 1 [(0, 0), (1, 0)]), .submit (quarried 2 [(0, 1)]),
      .send (quarried 3 [(5, 5)])]
    (t.shutdown.1.abandonedLayers = t.stats.queuedLayers ↔
        ∀ layer ∈ t.layers.layers, layer.tasks.length = 1) ∧
      t.shutdown.1.cancelledTasks = t.shutdown.1.clearedCells ∧
      t.stats.queuedTasks = 3 ∧ t.stats.queuedLayers = 2 ∧ t.stats.queuedDamage = 1 :=
  have report := @shutdown_report Regeneration.default 7 _ rfl
    [.submit (quarried 1 [(0, 0), (1, 0)]), .submit (quarried 2 [(0, 1)]),
      .send (quarried 3 [(5, 5)])]
  ⟨_, rfl, report.2.2, report.2.1, by decide +kernel⟩

/-- Abandoned layers and queued layers differ: a single layer with two tasks is reported as
    two. -/
theorem abandoned_layers_ne_queued : ¬ ∀ (settings : Regeneration) (seed : Tick) (s : Scheduler),
    Scheduler.new settings seed = .ok s → ∀ deeds : List Deed,
      (s.run deeds).shutdown.1.abandonedLayers = (s.run deeds).stats.queuedLayers := by
  intro h
  have hequal := h Regeneration.default 7 _ rfl [.submit (quarried 1 [(0, 0), (1, 0)])]
  exact absurd hequal (by decide +kernel)

end Mend
