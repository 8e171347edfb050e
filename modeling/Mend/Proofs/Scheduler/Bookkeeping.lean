import Mend.Atlas.Restore
import Mend.Proofs.Ledger.Counting
import Mend.Proofs.Scheduler.History

set_option autoImplicit false

/-! # The books agree: pending cells, ledger and tasks underway

Four parts of the scheduler speak of the same tasks: the layers and the agenda hold them, the set
of pending cells names their cells, and the ledger counts them by damage. Two properties of the
books say so. The pending set holds exactly the cells of the tasks underway
(`kept_pending`), whatever is handed in. The ledger counts the tasks underway (`kept_counts`),
provided that no identifier is handed in twice and no damage has more cells than a count can
name.

Together they make every state that a run reaches coherent (`coherent_run`). -/

namespace Mend

/-! ## The pending cells are those of the tasks underway -/

/-- Every deed keeps the pending set equal to the cells of the tasks underway. -/
theorem kept_pending : Kept (fun _ _ => True)
    (fun _ _ live s => s.pending.Holds (live.map Task.cell)) where
  accept {is xs live s} h p _ := by
    rw [List.map_append]
    rcases s.accept_cases p.id p.damage with ⟨hnil, _, heq⟩ | ⟨-, _, _, _, heq, -, -, -, -, hholds⟩
    · rw [heq, hnil, List.map_nil, List.append_nil]
      exact h
    · rw [heq]
      exact hholds _ h
  settle h _ := h.remove
  perm h hperm := h.perm (hperm.map Task.cell)
  frame h hpending _ _ := hpending.symm ▸ h

namespace Scheduler

variable {s : Scheduler}

theorem holds_after (h : s.pending.Holds (s.liveTasks.map Task.cell)) (d : Deed) :
    (s.after d).pending.Holds ((s.after d).liveTasks.map Task.cell) :=
  @Kept.after _ _ [] [] s kept_pending h d fun _ _ _ _ => trivial

/-- When a tick comes to its firing, the pending cells are those of the tasks that are due and of
    the others underway. -/
theorem holds_poised (h : s.pending.Holds (s.liveTasks.map Task.cell)) (clock : Clock) :
    (s.prepared clock).poised.pending.Holds
      (((s.prepared clock).dueTasks ++ (s.prepared clock).poised.liveTasks).map Task.cell) :=
  @Kept.prepared _ _ [] [] s kept_pending h clock fun _ _ _ _ => trivial

end Scheduler

/-! ## The ledger counts the tasks underway -/

/-- A parcel may be taken in after others if its identifier is none of theirs and its cells can be
    counted. -/
def NewParcel (is : List Intake) (p : Parcel) : Prop :=
  p.id ∉ is.map (·.parcel.id) ∧ p.damage.cells.length < 4294967296

/-- Every task underway belongs to damage that was taken in. -/
theorem kept_taken : Kept (fun _ _ => True)
    (fun is _ live _ => ∀ t ∈ live, t.damage ∈ is.map (·.parcel.id)) where
  accept {is xs live s} h p _ t ht := by
    rw [List.map_append, List.mem_append]
    rcases List.mem_append.1 ht with ht | ht
    · exact Or.inl (h t ht)
    · exact Or.inr (List.mem_singleton.2 (s.damage_of_mem_newTasks p.id p.damage ht))
  settle h _ t ht := h t (List.mem_cons_of_mem _ ht)
  perm h hperm t ht := h t (hperm.mem_iff.2 ht)
  frame h _ _ _ := h

/-- Every deed keeps the ledger counting the tasks underway, all of which belong to damage that
    was taken in. -/
theorem kept_counts : Kept NewParcel
    (fun is _ live s => s.ledger.Counts live ∧
      ∀ t ∈ live, t.damage ∈ is.map (·.parcel.id)) where
  accept {is xs live s} h p hp := by
    obtain ⟨hcounts, htaken⟩ := h
    refine ⟨?_, @Kept.accept _ _ kept_taken is xs live s htaken p trivial⟩
    rcases s.accept_cases p.id p.damage with ⟨hnil, _, heq⟩ | ⟨hne, _, _, _, heq, -⟩
    · rw [heq, hnil, List.append_nil]
      exact hcounts
    · rw [heq]
      have hlength := s.length_newTasks_le p.id p.damage
      have hsmall := hp.2
      refine hcounts.register ?_ (fun t ht => s.damage_of_mem_newTasks p.id p.damage ht)
        (Nat.min_eq_left (by omega)) (List.length_pos_iff.2 hne)
      refine List.countP_eq_zero.2 fun t ht => ?_
      have hne : t.damage ≠ p.id := fun e => hp.1 (e ▸ htaken t ht)
      exact (decide_eq_false hne).symm ▸ Bool.false_ne_true
  settle {is xs t live s} h o :=
    ⟨h.1.resolve o, @Kept.settle _ _ kept_taken is xs t live s h.2 o⟩
  perm h hperm := ⟨h.1.perm hperm, fun t ht => h.2 t (hperm.mem_iff.2 ht)⟩
  frame h _ hledger _ := ⟨hledger.symm ▸ h.1, h.2⟩

/-- In a run that hands in no identifier twice, the identifier of each parcel is new when it is taken
    in. -/
theorem id_notMem_of_subperm {deeds : List Deed}
    (distinct : ((handedIn deeds).map Parcel.id).Nodup) {is : List Intake} {p : Parcel}
    {rest : List Parcel} (h : (is.map Intake.parcel ++ p :: rest).Subperm (handedIn deeds)) :
    p.id ∉ is.map (·.parcel.id) := by
  intro hmem
  obtain ⟨i, hi, hid⟩ := List.mem_map.1 hmem
  obtain ⟨parcels, hperm, hsub⟩ := h
  have hnodup : ((is.map Intake.parcel ++ p :: rest).map Parcel.id).Nodup :=
    (hperm.map Parcel.id).nodup_iff.1 (distinct.sublist (hsub.map Parcel.id))
  rw [List.map_append, List.map_cons, List.nodup_append] at hnodup
  exact hnodup.2.2 i.parcel.id (List.mem_map_of_mem (List.mem_map_of_mem hi)) p.id
    List.mem_cons_self hid

/-- In a run that hands in no identifier twice and no damage that cannot be counted, each parcel
    is new when it is taken in. -/
theorem newParcel_of_subperm {deeds : List Deed}
    (distinct : ((handedIn deeds).map Parcel.id).Nodup)
    (small : ∀ p ∈ handedIn deeds, p.damage.cells.length < 4294967296)
    {is : List Intake} {p : Parcel} {rest : List Parcel}
    (h : (is.map Intake.parcel ++ p :: rest).Subperm (handedIn deeds)) : NewParcel is p :=
  ⟨id_notMem_of_subperm distinct h,
    small p (h.subset (List.mem_append_right _ List.mem_cons_self))⟩

/-! ## No layer is empty -/

namespace Scheduler

theorem filled_accept {s : Scheduler} (h : s.layers.WellFilled) (id : DamageId) (d : Damage) :
    (s.accept id d).2.layers.WellFilled := by
  rcases s.accept_cases id d with ⟨-, _, heq⟩ | ⟨-, _, _, _, heq, -, -, -, hfilled, -⟩
  · rw [heq]
    exact h
  · rw [heq]
    exact hfilled h

theorem filled_acceptAll {s : Scheduler} (h : s.layers.WellFilled) (ps : List Parcel) :
    (s.acceptAll ps).2.layers.WellFilled := by
  induction ps generalizing s with
  | nil => exact h
  | cons p rest ih => exact ih (filled_accept h p.id p.damage)

theorem filled_after {s : Scheduler} (h : s.layers.WellFilled) (d : Deed) :
    (s.after d).layers.WellFilled := by
  cases d with
  | submit p => exact filled_accept h p.id p.damage
  | send p =>
      obtain ⟨funnel, hafter⟩ := s.after_send p
      rw [hafter]
      exact h
  | setSpeed speed => exact h
  | tick world listener =>
      cases hclock : s.clock.advance with
      | error e => rwa [(tick_error hclock world listener).1]
      | ok clock =>
          rw [after_tick hclock, settleAll_eq]
          obtain ⟨_, layers, _, _, hrel, -, hfilled⟩ :=
            ((s.atIntake clock).acceptAll s.funnel.waiting).2.release_eq
          show (((s.atIntake clock).acceptAll s.funnel.waiting).2.release.2).layers.WellFilled
          rw [hrel]
          exact hfilled (filled_acceptAll (s := s.atIntake clock) h _)

theorem filled_run {s : Scheduler} (h : s.layers.WellFilled) (deeds : List Deed) :
    (s.run deeds).layers.WellFilled := by
  induction deeds generalizing s with
  | nil => exact h
  | cons d rest ih => exact ih (filled_after h d)

end Scheduler

/-! ## Every reachable state -/

/-- The books of a scheduler agree: on the cells underway, on the damage underway, and on whether
    anything is. -/
structure Scheduler.Coherent (s : Scheduler) : Prop where
  /-- No two tasks underway have the same cell. -/
  distinct_cells : (s.liveTasks.map Task.cell).Nodup
  /-- A cell is pending exactly if a task underway has it. -/
  pending_iff : ∀ world pos, s.isPending world pos = true ↔
    ∃ t ∈ s.liveTasks, t.cell = (world, pos)
  pending_count : s.stats.pendingCells = s.stats.queuedTasks + s.stats.scheduledTasks
  /-- Damage has a record exactly if it has a task underway. -/
  recorded_iff : ∀ id, s.ledger.contains id = true ↔ ∃ t ∈ s.liveTasks, t.damage = id
  /-- What remains of damage is the number of its tasks underway. -/
  remaining_eq : ∀ id n, s.ledger.remaining? id = some n →
    n.val = (s.liveTasks.filter (·.damage = id)).length
  /-- Nothing is left to do exactly if nothing was sent and nothing is pending. -/
  idle_iff : s.isIdle = true ↔ s.funnel.isEmpty = true ∧ s.pending.isEmpty = true

section Reachable

variable {settings : Regeneration} {seed : Tick} {s : Scheduler}

/-- In every reachable state the pending set holds the cells of the tasks underway. -/
theorem Scheduler.holds_run (fresh : Scheduler.new settings seed = .ok s) (deeds : List Deed) :
    (s.run deeds).pending.Holds ((s.run deeds).liveTasks.map Task.cell) := by
  obtain ⟨hpending, -⟩ := Scheduler.new_eq fresh
  refine kept_pending.run fresh ?_ deeds fun _ _ _ _ => trivial
  rw [hpending]
  exact Pending.holds_empty

theorem Scheduler.filled_of_new (fresh : Scheduler.new settings seed = .ok s)
    (deeds : List Deed) : (s.run deeds).layers.WellFilled := by
  obtain ⟨-, hlayers, -⟩ := Scheduler.new_eq fresh
  refine filled_run ?_ deeds
  rw [hlayers]
  exact LayerQueue.wellFilled_empty

/-- In every reachable state the ledger counts the tasks underway. -/
theorem Scheduler.counts_run (fresh : Scheduler.new settings seed = .ok s) {deeds : List Deed}
    (distinct : ((handedIn deeds).map Parcel.id).Nodup)
    (small : ∀ p ∈ handedIn deeds, p.damage.cells.length < 4294967296) :
    (s.run deeds).ledger.Counts (s.run deeds).liveTasks := by
  obtain ⟨-, -, -, hledger, -⟩ := Scheduler.new_eq fresh
  have hstart : s.ledger.Counts [] := hledger.symm ▸ Ledger.counts_empty
  have hrun := kept_counts.run fresh ⟨hstart, fun _ ht => absurd ht List.not_mem_nil⟩ deeds
    fun _ _ _ h => newParcel_of_subperm distinct small h
  exact hrun.1

/-- There are as many pending cells as tasks underway. -/
theorem Scheduler.size_pending (fresh : Scheduler.new settings seed = .ok s)
    (deeds : List Deed) :
    (s.run deeds).pending.size
      = (s.run deeds).layers.taskCount + (s.run deeds).agenda.size := by
  have hsize := (Scheduler.holds_run fresh deeds).size_eq
  rwa [List.length_map, liveTasks, List.length_append, Agenda.length_items] at hsize

/-- Where the books agree, nothing is left to do exactly if nothing was sent and nothing is
    pending. -/
theorem Scheduler.isIdle_iff (hholds : s.pending.Holds (s.liveTasks.map Task.cell))
    (hfilled : s.layers.WellFilled) (hcounts : s.ledger.Counts s.liveTasks) :
    s.isIdle = true ↔ s.funnel.isEmpty = true ∧ s.pending.isEmpty = true := by
  have hpending : s.pending.isEmpty = true ↔ s.liveTasks = [] := by
    rw [Pending.isEmpty, beq_iff_eq, hholds.size_eq, List.length_map, List.length_eq_zero_iff]
  have hlive : s.liveTasks = [] ↔ s.layers.isEmpty = true ∧ s.agenda.isEmpty = true := by
    rw [liveTasks, List.append_eq_nil_iff, hfilled.isEmpty_iff, Agenda.isEmpty_iff]
  rw [isIdle, Bool.and_eq_true, Bool.and_eq_true, Bool.and_eq_true, hpending, hlive]
  constructor
  · rintro ⟨⟨⟨hfunnel, hlayers⟩, hagenda⟩, -⟩
    exact ⟨hfunnel, hlayers, hagenda⟩
  · rintro ⟨hfunnel, hlayers, hagenda⟩
    refine ⟨⟨⟨hfunnel, hlayers⟩, hagenda⟩, Ledger.Counts.isEmpty_of_nil ?_⟩
    rwa [hlive.2 ⟨hlayers, hagenda⟩] at hcounts

/-- **The books agree.** Every state that a run reaches is coherent, provided that no identifier
    is handed in twice and no damage has more cells than a count can name. -/
theorem coherent_run (fresh : Scheduler.new settings seed = .ok s) (deeds : List Deed)
    (distinct : ((handedIn deeds).map Parcel.id).Nodup)
    (small : ∀ p ∈ handedIn deeds, p.damage.cells.length < 4294967296) :
    (s.run deeds).Coherent := by
  have hholds := Scheduler.holds_run fresh deeds
  have hcounts := Scheduler.counts_run fresh distinct small
  have hfilled := Scheduler.filled_of_new fresh deeds
  refine
    { distinct_cells := hholds.nodup
      pending_iff := fun world pos => ?_
      pending_count := Scheduler.size_pending fresh deeds
      recorded_iff := hcounts.contains_iff
      remaining_eq := fun id n hn => ?_
      idle_iff := Scheduler.isIdle_iff hholds hfilled hcounts }
  · rw [Scheduler.isPending, hholds.contains_iff, List.mem_map]
  · rw [hcounts.remaining?_eq_some hn, List.countP_eq_length_filter]

/-- The books agree where one parcel names a cell twice and another, sent through the funnel,
    names a cell of the first. -/
theorem coherent_run_overlapping : ∃ s, Scheduler.new Regeneration.default 7 = .ok s ∧
    let deeds : List Deed := [.submit (quarried 1 [(0, 0), (0, 1), (0, 0)]),
      .send (quarried 2 [(0, 1), (1, 1)]), .tick (Atlas.empty []) (), .setSpeed 10]
    ((handedIn deeds).map Parcel.id).Nodup ∧
      (∀ p ∈ handedIn deeds, p.damage.cells.length < 4294967296) ∧
      (s.run deeds).Coherent ∧ (s.run deeds).stats.pendingCells = 3 :=
  ⟨_, rfl, by decide, by decide,
    @coherent_run Regeneration.default 7 _ rfl _ (by decide) (by decide), by decide +kernel⟩

end Reachable

end Mend
