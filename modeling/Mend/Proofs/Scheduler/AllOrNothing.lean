import Mend.Proofs.Scheduler.Bookkeeping
import Mend.Proofs.Scheduler.LowestFirst

set_option autoImplicit false

/-! # Damage is taken in whole, up to the cap, and once

Intake sifts the cells of damage before it decides whether to take the damage in. If no cell
passes, sifting has left the pending set as it was, so damage that is discarded leaves no trace. If
some do, each of the books grows by exactly these cells (`Scheduler.TakesIn`). Sifting leaves every
cell of the damage barred, as pending or by the cap, so that the same damage is discarded when it is
handed in again at once.

Intake respects the cap, and nothing else adds a pending cell, so no run goes beyond it
(`Scheduler.WithinCap`). -/

namespace Mend

namespace Scheduler

variable {s : Scheduler} {id : DamageId} {d : Damage}

/-! ## The cap -/

/-- No more cells are pending than the cap allows. -/
def WithinCap (s : Scheduler) : Prop := ∀ limit, s.cap = some limit → s.pending.size ≤ limit

/-- Unless regeneration is off, intake leaves the pending set as sifting does. -/
theorem accept_pending (s : Scheduler) (id : DamageId) (d : Damage)
    (hon : s.pacing.isDisabled = false) : (s.accept id d).2.pending
      = (Sifted.ofCells d.world d.cells s.pending s.cap).2 := by
  unfold accept
  rw [if_neg (by simp [hon])]
  dsimp only
  split <;> rfl

theorem accept_of_disabled (hoff : s.pacing.isDisabled = true) :
    s.accept id d = (.discarded id .disabled, s) := by
  rw [accept, if_pos hoff]

/-- Damage all of whose cells are barred is discarded. -/
theorem accept_of_barred (hon : s.pacing.isDisabled = false)
    (hbarred : ∀ c ∈ d.cells, s.pending.Bars s.cap d.world c.pos) :
    s.accept id d = (.discarded id .noEligibleCells, s) := by
  have hnil := (Sifted.taken_eq_nil_iff d.world s.cap d.cells s.pending).2 hbarred
  have hpending := Sifted.pending_of_taken_nil d.world s.cap d.cells s.pending hnil
  unfold accept
  rw [if_neg (by simp [hon])]
  simp only [hnil, hpending, layersOf, lowestElevation?]

theorem WithinCap.accept (h : s.WithinCap) (id : DamageId) (d : Damage) :
    (s.accept id d).2.WithinCap := by
  intro limit hcap
  obtain ⟨_, _, _, _, heq⟩ := s.accept_eq id d
  replace hcap : s.cap = some limit := by rwa [heq] at hcap
  cases hoff : s.pacing.isDisabled with
  | true =>
      rw [accept_of_disabled hoff]
      exact h limit hcap
  | false =>
      rw [s.accept_pending id d hoff, hcap]
      exact Sifted.size_foldl_step_le d.cells Sifted.nothing (h limit hcap)

theorem WithinCap.acceptAll (h : s.WithinCap) (ps : List Parcel) :
    (s.acceptAll ps).2.WithinCap := by
  induction ps generalizing s with
  | nil => exact h
  | cons p rest ih => exact ih (h.accept p.id p.damage)

/-- Firing adds no pending cell. -/
theorem WithinCap.settleAll (h : s.WithinCap) (xs : List Shot) : (s.settleAll xs).WithinCap := by
  induction xs generalizing s with
  | nil => exact h
  | cons x rest ih =>
      refine ih fun limit hcap => ?_
      exact Nat.le_trans (Pending.size_remove_le _ _ _) (h limit hcap)

theorem WithinCap.after (h : s.WithinCap) (deed : Deed) : (s.after deed).WithinCap := by
  rcases s.deed_cases deed with ⟨p, rfl⟩ | hquiet | ⟨clock, hticks⟩
  · exact h.accept p.id p.damage
  · obtain ⟨_, _, hafter⟩ := hquiet.after_eq
    rw [hafter]
    exact h
  · obtain ⟨_, _, _, -, hafter⟩ := hticks.after_eq
    rw [hafter]
    apply WithinCap.settleAll
    -- a release moves tasks from the layers to the agenda, and their cells stay pending
    have hreceived : (s.received clock).WithinCap :=
      WithinCap.acceptAll (s := s.atIntake clock) h s.funnel.waiting
    obtain ⟨_, _, _, _, hrelease, -⟩ := (s.received clock).release_eq
    intro limit hcap
    have hprepared : s.prepared clock = (s.received clock).release.2 := rfl
    rw [hprepared, hrelease] at hcap ⊢
    exact hreceived limit hcap

/-! ## What intake does to the books -/

/-- Damage that is accepted gets the tasks `new`, and all that intake does is to add them. -/
structure TakesIn (s : Scheduler) (id : DamageId) (d : Damage) (a : Acceptance) (new : List Task)
    (s' : Scheduler) : Prop where
  /-- The tasks are for cells of the damage, in the order in which it lists them. -/
  admits : Intake.Admits ⟨⟨id, d⟩, s.clock.now, .accepted a⟩ new
  named : a.damage = id
  counted : 1 ≤ a.cells.val ∧ a.cells.val = new.length
  /-- Their cells are distinct, and were not pending. -/
  fresh : (new.map Task.cell).Nodup ∧ ∀ t ∈ new, s.isPending t.world t.pos = false
  pending : ∀ world pos, s'.isPending world pos = true ↔
    s.isPending world pos = true ∨ (world, pos) ∈ new.map Task.cell
  /-- No cell of the damage is left that could be taken in. -/
  barred : ∀ c ∈ d.cells, s'.pending.Bars s'.cap d.world c.pos
  /-- At each elevation the new tasks join what waits there. -/
  layers : ∀ y, tasksAt y s'.layers.tasks = tasksAt y s.layers.tasks ++ tasksAt y new
  records : ∀ k, s'.ledger.records[k]?
    = if id = k then some (s.openRecord id d new.length) else s.ledger.records[k]?
  remaining : s'.ledger.remaining? id = some a.cells
  sizes : s'.stats.pendingCells = s.stats.pendingCells + new.length ∧
    s'.stats.queuedTasks = s.stats.queuedTasks + new.length
  active : s.ledger.contains id = false → s'.stats.activeDamage = s.stats.activeDamage + 1
  rest : s' = { s with
    pending := s'.pending, layers := s'.layers, ledger := s'.ledger
    drain := s.drain.wake s.clock.now }

/-- Intake is all or nothing, and does nothing the second time. -/
structure IntakeWhole (s : Scheduler) (id : DamageId) (d : Damage) : Prop where
  /-- Damage that is discarded changes nothing. Either regeneration is off, or none of its cells
      could be taken in. -/
  discarded : ∀ named reason s', s.accept id d = (.discarded named reason, s') →
    named = id ∧ s' = s ∧ (reason = .disabled ∧ s.speed.val = 0 ∨
      reason = .noEligibleCells ∧ ∀ c ∈ d.cells, s.pending.Bars s.cap d.world c.pos)
  accepted : ∀ a s', s.accept id d = (.accepted a, s') → ∃ new, s.TakesIn id d a new s'
  /-- The same damage, under whatever identifier, is discarded when it is handed in again at once,
      and changes nothing. -/
  again : ∀ again, ∃ reason, (s.accept id d).2.accept again d
    = (.discarded again reason, (s.accept id d).2)

theorem barred_of_newTasks_nil (hon : s.pacing.isDisabled = false) (hnil : s.newTasks id d = []) :
    ∀ c ∈ d.cells, s.pending.Bars s.cap d.world c.pos := by
  have hcells := s.newTasks_cells id d hon
  rw [hnil, List.map_nil, eq_comm, List.map_eq_nil_iff] at hcells
  exact (Sifted.taken_eq_nil_iff d.world s.cap d.cells s.pending).1 hcells

/-- Unless regeneration is off, intake leaves no cell of the damage that could be taken in. -/
theorem bars_accept (hon : s.pacing.isDisabled = false) (id : DamageId) {c : LostCell}
    (hc : c ∈ d.cells) :
    (s.accept id d).2.pending.Bars (s.accept id d).2.cap d.world c.pos := by
  have hcap : (s.accept id d).2.cap = s.cap := by
    obtain ⟨_, _, _, _, heq⟩ := s.accept_eq id d
    rw [heq]
  rw [s.accept_pending id d hon, hcap]
  exact Sifted.bars_ofCells d.world s.cap d.cells s.pending hc

theorem accept_again (s : Scheduler) (id : DamageId) (d : Damage) (again : DamageId) :
    ∃ reason, (s.accept id d).2.accept again d = (.discarded again reason, (s.accept id d).2) := by
  cases hoff : s.pacing.isDisabled with
  | true =>
      rw [accept_of_disabled hoff]
      exact ⟨.disabled, accept_of_disabled hoff⟩
  | false =>
      have hon : (s.accept id d).2.pacing.isDisabled = false := by
        obtain ⟨_, _, _, _, heq⟩ := s.accept_eq id d
        rw [heq]
        exact hoff
      exact ⟨.noEligibleCells, accept_of_barred hon fun c hc => bars_accept hoff id hc⟩

theorem discarded_of_accept {named : DamageId} {reason : DiscardReason} {s' : Scheduler}
    (h : s.accept id d = (.discarded named reason, s')) :
    named = id ∧ s' = s ∧ (reason = .disabled ∧ s.speed.val = 0 ∨
      reason = .noEligibleCells ∧ ∀ c ∈ d.cells, s.pending.Bars s.cap d.world c.pos) := by
  cases hoff : s.pacing.isDisabled with
  | true =>
      rw [accept_of_disabled hoff] at h
      cases h
      exact ⟨rfl, rfl, Or.inl ⟨rfl, beq_iff_eq.1 hoff⟩⟩
  | false =>
      rcases s.accept_cases id d with ⟨hnil, -⟩ | ⟨-, _, _, _, heq, -⟩
      · have hbarred := barred_of_newTasks_nil hoff hnil
        rw [accept_of_barred hoff hbarred] at h
        cases h
        exact ⟨rfl, rfl, Or.inr ⟨rfl, hbarred⟩⟩
      · rw [heq] at h
        cases h

/-- The books grow by the tasks of damage that is accepted, where they agree on what is pending and
    the layers are in order. -/
theorem takesIn_of_accept {listed : List (WorldName × Pos)} (hholds : s.pending.Holds listed)
    (hordered : s.layers.Ordered) (small : d.cells.length < 4294967296) {a : Acceptance}
    {s' : Scheduler} (h : s.accept id d = (.accepted a, s')) :
    s.TakesIn id d a (s.newTasks id d) s' := by
  have hadmits := s.accept_admits ⟨id, d⟩ s.clock.now
  have hlayers := (accept_ordered hordered id d).2
  rcases s.accept_cases id d with ⟨-, _, heq⟩ | ⟨hne, _, pending, layers, heq, hnamed, hcells,
    hperm, -, hpending⟩
  · rw [heq] at h
    cases h
  obtain ⟨base, hon, -⟩ := (s.newTasks_eq id d).resolve_left hne
  have hbarred := fun c hc => @bars_accept s d hon id c hc
  simp only [heq] at hadmits hlayers hbarred
  rw [heq] at h
  cases h
  have hlength := s.length_newTasks_le id d
  have hpositive := List.length_pos_iff.2 hne
  have hcount : a.cells.val = (s.newTasks id d).length := by
    rw [hcells]
    exact Nat.min_eq_left (by omega)
  have hsome : (s.openRecord id d (s.newTasks id d).length).remaining.val ≠ 0 := by
    show (Capped.clamp (s.newTasks id d).length : Count).val ≠ 0
    rw [← hcells]
    omega
  have hrecords := fun k => @Ledger.getElem?_register s.ledger _ hsome k
  obtain ⟨hnodup, hnotPending, hiff, hsize⟩ := hholds.beyond (hpending listed hholds)
  refine
    { admits := hadmits
      named := hnamed
      counted := ⟨by omega, hcount⟩
      fresh := ⟨hnodup, fun t ht => hnotPending t.cell (List.mem_map_of_mem ht)⟩
      pending := hiff
      barred := hbarred
      layers := hlayers
      records := hrecords
      remaining := ?_
      sizes := ⟨?_, ?_⟩
      active := fun hnew => Ledger.size_register hsome hnew
      rest := rfl }
  · rw [Ledger.remaining?, hrecords id]
    simp [openRecord, hcells]
  · rwa [List.length_map] at hsize
  · show layers.tasks.length = s.layers.tasks.length + _
    rw [hperm.length_eq, List.length_append]

end Scheduler

/-! ## Reachable schedulers -/

/-- Every record is of damage that was taken in. -/
theorem kept_recorded : Kept (fun _ _ => True)
    (fun is _ _ s => ∀ id, s.ledger.contains id = true → id ∈ is.map (·.parcel.id)) where
  accept {is xs live s} h p _ id hid := by
    rw [List.map_append, List.mem_append]
    rcases s.accept_cases p.id p.damage with ⟨-, _, heq⟩ | ⟨-, _, _, _, heq, -⟩ <;> rw [heq] at hid
    · exact Or.inl (h id hid)
    · rcases Ledger.contains_of_register hid with hown | hold
      · exact Or.inr (List.mem_singleton.2 hown.symm)
      · exact Or.inl (h id hold)
  settle h _ id hid := h id (Ledger.contains_of_resolve hid)
  perm h _ := h
  frame h _ hledger _ id hid := h id (hledger ▸ hid)

section Reachable

variable {settings : Regeneration} {seed : Tick} {s : Scheduler}

theorem Scheduler.withinCap_run (fresh : Scheduler.new settings seed = .ok s)
    (deeds : List Deed) : (s.run deeds).WithinCap := by
  obtain ⟨hpending, -⟩ := Scheduler.new_eq fresh
  induction deeds using List.reverseRecOn with
  | nil =>
      intro limit _
      show s.pending.size ≤ limit
      rw [hpending]
      exact Nat.zero_le _
  | append_singleton deeds deed ih =>
      rw [Scheduler.run_concat]
      exact ih.after deed

theorem Scheduler.cap_run (fresh : Scheduler.new settings seed = .ok s) (deeds : List Deed) :
    (s.run deeds).cap = settings.cap := by
  obtain ⟨-, -, -, -, -, hcap⟩ := Scheduler.new_eq fresh
  induction deeds using List.reverseRecOn with
  | nil => exact hcap
  | append_singleton deeds deed ih => rw [Scheduler.run_concat, Scheduler.cap_after, ih]

/-- Damage with an identifier that was not handed in has no record. -/
theorem Scheduler.not_recorded (fresh : Scheduler.new settings seed = .ok s) (deeds : List Deed)
    {id : DamageId} (hnew : id ∉ (handedIn deeds).map Parcel.id) :
    (s.run deeds).ledger.contains id = false := by
  obtain ⟨-, -, -, hledger, -⟩ := Scheduler.new_eq fresh
  have hrecorded := kept_recorded.run fresh (fun id hid => by
    rw [hledger] at hid
    simp [Ledger.empty, Ledger.contains] at hid) deeds fun _ _ _ _ => trivial
  rw [Bool.eq_false_iff]
  intro hid
  obtain ⟨i, hi, rfl⟩ := List.mem_map.1 (hrecorded id hid)
  exact hnew (List.mem_map_of_mem (handedIn_of_mem_intakes fresh hi))

/-- **Damage is taken in whole, up to the cap, and once.** In every state that a run reaches, no
    more cells are pending than the settings allow, and damage with fewer cells than a count can
    name is either discarded, which changes nothing, or taken in: then the pending set, the layers
    and the ledger grow by exactly its tasks, and keep all they held. The same damage is discarded
    when it is handed in again at once, whether it was taken in whole or cut short by the cap.
    Damage whose identifier is new has no record before. -/
theorem intake_whole (fresh : Scheduler.new settings seed = .ok s) (deeds : List Deed) :
    (0 < settings.maxPending.val →
      (s.run deeds).stats.pendingCells ≤ settings.maxPending.val) ∧
    (∀ id ∉ (handedIn deeds).map Parcel.id, (s.run deeds).ledger.contains id = false) ∧
    ∀ (id : DamageId) (d : Damage), d.cells.length < 4294967296 →
      (s.run deeds).IntakeWhole id d := by
  refine ⟨fun hpositive => ?_, fun id hnew => Scheduler.not_recorded fresh deeds hnew,
    fun id d small => ?_⟩
  · have hcap : (s.run deeds).cap = some settings.maxPending.val := by
      rw [Scheduler.cap_run fresh, Regeneration.cap, if_neg (by omega)]
    exact Scheduler.withinCap_run fresh deeds _ hcap
  · have hholds := Scheduler.holds_run fresh deeds
    have hordered := Scheduler.ordered_run fresh deeds
    exact
      { discarded := fun _ _ _ => Scheduler.discarded_of_accept
        accepted := fun a s' h => ⟨_, Scheduler.takesIn_of_accept hholds hordered small h⟩
        again := (s.run deeds).accept_again id d }

/-- A cap of two cells cuts damage of three cells short. The whole of it is discarded when it is
    handed in again. -/
theorem intake_whole_capped : ∃ s a s',
    let settings := { Regeneration.default with maxPending := 2 }
    let p := quarried 1 [(0, 0), (0, 1), (1, 0)]
    Scheduler.new settings 7 = .ok s ∧ 0 < settings.maxPending.val ∧
      p.id ∉ (handedIn []).map Parcel.id ∧ p.damage.cells.length < 4294967296 ∧
      s.accept p.id p.damage = (.accepted a, s') ∧ (a.cells, a.overCap) = (2, 1) ∧
      (∃ new, s.TakesIn p.id p.damage a new s') ∧
      ∃ reason, s'.accept (DamageId.ofNat 2) p.damage
        = (.discarded (DamageId.ofNat 2) reason, s') := by
  obtain ⟨s, hs⟩ : ∃ s, Scheduler.new { Regeneration.default with maxPending := 2 } 7 = .ok s :=
    ⟨_, rfl⟩
  obtain ⟨-, -, hintake⟩ := intake_whole hs []
  have hwhole : s.IntakeWhole _ _ := hintake (quarried 1 [(0, 0), (0, 1), (1, 0)]).id
    (quarried 1 [(0, 0), (0, 1), (1, 0)]).damage (by decide)
  cases hs
  exact ⟨_, _, _, rfl, by decide, by decide, by decide, rfl, by decide +kernel,
    hwhole.accepted _ _ rfl, hwhole.again _⟩

end Reachable

end Mend
