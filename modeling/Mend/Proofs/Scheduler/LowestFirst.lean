import Mathlib.Data.List.Forall2
import Mend.Atlas.Restore
import Mend.Proofs.Scheduler.Turns

set_option autoImplicit false

/-! # Lower layers are released first

In a fresh scheduler's layers the tasks of one elevation always stand in the order in which they
were admitted, and a release takes all tasks of the least elevation that waits. What waits at the
same moment therefore leaves in order of elevation, and what waits at one elevation leaves
together and in order, whatever is admitted in between: at an elevation that is still waiting it
joins the end of the line, and below all that is waiting it is released before it
(`LayerQueue.LeavesInOrder`). The induction is on the deeds that follow the moment, and each deed
lets the line at an elevation grow at its end or takes it out whole. -/

namespace Mend

/-! ## Admission -/

/-- Whether damage got tasks. -/
def Verdict.isAccepted : Verdict → Bool
  | .accepted _ => true
  | .discarded _ _ => false

/-- The tasks `g` were admitted for the damage of an intake: they are for some of its cells, in the
    order in which it lists them, each with its height above the lowest of them, and there are none
    exactly if the damage was discarded. -/
structure Intake.Admits (i : Intake) (g : List Task) : Prop where
  owner : ∀ t ∈ g, t.damage = i.parcel.id ∧ t.world = i.parcel.damage.world
  listed : (g.map Task.lostCell).Sublist i.parcel.damage.cells
  measured : ∀ t ∈ g, ∃ low ∈ g, (∀ u ∈ g, low.pos.y ≤ u.pos.y) ∧
    (t.height.val : Int) = t.pos.y.val - low.pos.y.val
  accepted_iff : i.verdict.isAccepted = true ↔ g ≠ []

namespace Scheduler

variable {s : Scheduler}

theorem newTasks_eq (s : Scheduler) (id : DamageId) (d : Damage) :
    s.newTasks id d = [] ∨ ∃ base, s.pacing.isDisabled = false ∧
      lowestElevation? (s.eligible d) = some base ∧
      s.newTasks id d = (s.eligible d).map (·.task id d.world base) := by
  unfold newTasks
  split_ifs with hoff
  · exact Or.inl rfl
  · cases hlow : lowestElevation? (s.eligible d) with
    | none => exact Or.inl rfl
    | some base => exact Or.inr ⟨base, by simpa using hoff, rfl, rfl⟩

theorem accept_admits (s : Scheduler) (p : Parcel) (tick : Tick) :
    Intake.Admits ⟨p, tick, (s.accept p.id p.damage).1⟩ (s.newTasks p.id p.damage) := by
  have haccepted : (s.accept p.id p.damage).1.isAccepted = true ↔
      s.newTasks p.id p.damage ≠ [] := by
    rcases s.accept_cases p.id p.damage with ⟨hnil, reason, h⟩ | ⟨hne, a, _, _, h, -⟩
    · simp [h, hnil, Verdict.isAccepted]
    · simp [h, hne, Verdict.isAccepted]
  rcases s.newTasks_eq p.id p.damage with hnil | ⟨base, -, hlow, htasks⟩
  · exact ⟨by simp [hnil], by simp [hnil], by simp [hnil], haccepted⟩
  · refine ⟨?_, ?_, ?_, haccepted⟩
    · simp [htasks, LostCell.task]
    · have hlost : (s.newTasks p.id p.damage).map Task.lostCell = s.eligible p.damage := by
        rw [htasks, List.map_map]
        exact List.map_id _
      rw [hlost]
      exact Sifted.taken_sublist _ _ _ _
    · obtain ⟨hleast, low, hmem, rfl⟩ := lowestElevation?_spec hlow
      rw [htasks]
      intro t ht
      obtain ⟨c, hc, rfl⟩ := List.mem_map.1 ht
      exact ⟨_, List.mem_map_of_mem hmem, by simpa [LostCell.task] using hleast,
        LostCell.height_task p.id p.damage.world (hleast c hc)⟩

theorem admits_intakeAll (s : Scheduler) (ps : List Parcel) :
    List.Forall₂ Intake.Admits (s.intakeAll ps) (s.admitAll ps) := by
  induction ps generalizing s with
  | nil => exact .nil
  | cons p rest ih => exact .cons (s.accept_admits p _) (ih _)

/-- The groups that a run admits are those of its intakes, one by one. -/
theorem admits_run (s : Scheduler) (deeds : List Deed) :
    List.Forall₂ Intake.Admits (s.intakes deeds) (s.admissions deeds) := by
  induction deeds generalizing s with
  | nil => exact .nil
  | cons d rest ih =>
      refine List.rel_append ?_ (ih (s.after d))
      rcases s.deed_cases d with ⟨p, rfl⟩ | hquiet | ⟨clock, hticks⟩
      · exact .cons (s.accept_admits p _) .nil
      · rw [hquiet.intakes, hquiet.admissions]
        exact .nil
      · rw [hticks.intakes, hticks.admissions]
        exact admits_intakeAll _ _

theorem accept_layers (s : Scheduler) (id : DamageId) (d : Damage)
    (hon : s.pacing.isDisabled = false) : (s.accept id d).2.layers
      = (layersOf id d.world (s.eligible d)).1.foldl LayerQueue.merge s.layers := by
  unfold accept eligible
  rw [if_neg (by simp [hon])]
  simp only [layersOf]
  cases lowestElevation? (Sifted.ofCells d.world d.cells s.pending s.cap).1.taken <;> rfl

/-- Admission appends to what waits at each elevation the new tasks there. -/
theorem accept_ordered (h : s.layers.Ordered) (id : DamageId) (d : Damage) :
    (s.accept id d).2.layers.Ordered ∧ ∀ y, tasksAt y (s.accept id d).2.layers.tasks
      = tasksAt y s.layers.tasks ++ tasksAt y (s.newTasks id d) := by
  rcases s.accept_cases id d with ⟨hnil, _, heq⟩ | ⟨hne, -⟩
  · rw [heq, hnil]
    exact ⟨h, by simp⟩
  · obtain ⟨base, hon, hlow, htasks⟩ := (s.newTasks_eq id d).resolve_left hne
    obtain ⟨hstacked, hat⟩ := layersOf_stacked hlow
    obtain ⟨hordered, hmerged⟩ := h.mergeAll hstacked.level
    rw [s.accept_layers id d hon, htasks]
    exact ⟨hordered, fun y => by rw [hmerged, hat]⟩

theorem acceptAll_ordered (h : s.layers.Ordered) (ps : List Parcel) :
    (s.acceptAll ps).2.layers.Ordered ∧ ∀ y, tasksAt y (s.acceptAll ps).2.layers.tasks
      = tasksAt y s.layers.tasks ++ tasksAt y (s.admitAll ps).flatten := by
  induction ps generalizing s with
  | nil => exact ⟨h, by simp [acceptAll, admitAll]⟩
  | cons p rest ih =>
      obtain ⟨hone, hat⟩ := accept_ordered h p.id p.damage
      obtain ⟨hall, hats⟩ := ih hone
      refine ⟨hall, fun y => ?_⟩
      rw [acceptAll, admitAll, hats, hat, List.flatten_cons, tasksAt_append, List.append_assoc]

end Scheduler

/-! ## Release -/

/-- A release phase takes all waiting tasks of the least elevation and no others, in their order,
    and makes one appointment for each; or it takes nothing. -/
structure Turn.TakesLowest (x : Turn) : Prop where
  nothing : x.release = none → x.appointments = [] ∧ x.left = x.found
  least : ∀ r, x.release = some r →
    (∃ t ∈ x.found.tasks, t.pos.y = r.elevation) ∧ ∀ t ∈ x.found.tasks, r.elevation ≤ t.pos.y
  taken : ∀ r, x.release = some r →
    x.appointments.map Appointment.task = tasksAt r.elevation x.found.tasks ∧
      r.tasks = x.appointments.length
  left : ∀ r, x.release = some r →
    x.left.tasks = x.found.tasks.filter (·.pos.y ≠ r.elevation)
  made : ∀ a ∈ x.appointments, a.made = x.tick

theorem Scheduler.turn_takesLowest {s : Scheduler} (h : s.layers.Ordered) :
    s.turn.TakesLowest ∧ s.turn.left.Ordered := by
  rcases s.turn_cases with ⟨_, -, hturn⟩ | ⟨layer, _, rest, _, as, hq, -, hturn, hmap, has⟩
  · rw [hturn]
    exact ⟨⟨fun _ => ⟨rfl, rfl⟩, by simp, by simp, by simp, by simp⟩, h⟩
  · obtain ⟨hrest, hne, hlevel, habove, htasks⟩ := h.of_cons hq
    have hnot : ∀ t ∈ (⟨rest⟩ : LayerQueue).tasks, t.pos.y ≠ layer.elevation :=
      fun t ht => (Coord.ne_of_lt (habove t ht)).symm
    have hat : tasksAt layer.elevation s.layers.tasks = layer.tasks := by
      rw [htasks, tasksAt_append, tasksAt_of_forall hlevel, tasksAt_eq_nil hnot, List.append_nil]
    rw [hturn]
    refine ⟨⟨by simp, ?_, ?_, ?_, fun a ha => (has a ha).made_eq⟩, hrest⟩ <;>
      rintro r hr <;> obtain rfl := Option.some.inj hr
    · obtain ⟨t, ht⟩ := List.exists_mem_of_ne_nil _ hne
      refine ⟨⟨t, by simp [htasks, ht], hlevel t ht⟩, fun u hu => ?_⟩
      rw [htasks, List.mem_append] at hu
      rcases hu with hu | hu
      · rw [hlevel u hu]
        exact Coord.le_refl _
      · exact Coord.le_of_lt (habove u hu)
    · exact ⟨hmap.trans hat.symm, by rw [← hmap, List.length_map]⟩
    · -- the released tasks are filtered out, the others all stay
      show (⟨rest⟩ : LayerQueue).tasks = s.layers.tasks.filter _
      rw [htasks, List.filter_append, List.filter_eq_nil_iff.2 (by simpa using hlevel),
        List.filter_eq_self.2 (by simpa using hnot), List.nil_append]

theorem Turn.TakesLowest.tasksAt_found {x : Turn} (h : x.TakesLowest) (y : Coord) :
    tasksAt y x.found.tasks
      = tasksAt y (x.appointments.map Appointment.task) ++ tasksAt y x.left.tasks := by
  cases hr : x.release with
  | none => simp [h.nothing hr]
  | some r =>
      rw [(h.taken r hr).1, h.left r hr]
      by_cases hy : y = r.elevation
      · subst hy
        simp [tasksAt, List.filter_filter]
      · rw [tasksAt_eq_nil fun t ht heq => hy (heq.symm.trans (mem_tasksAt.1 ht).2),
          List.nil_append, tasksAt, tasksAt, List.filter_filter]
        refine List.filter_congr fun t _ => ?_
        by_cases ht : t.pos.y = y <;> simp [ht, hy]

theorem Turn.TakesLowest.elevation_appointments {x : Turn} (h : x.TakesLowest) {r : Release}
    (hr : x.release = some r) : ∀ a ∈ x.appointments, a.task.pos.y = r.elevation := by
  intro a ha
  have hmem := List.mem_map_of_mem (f := Appointment.task) ha
  rw [(h.taken r hr).1] at hmem
  exact (mem_tasksAt.1 hmem).2

/-- What a release leaves behind stands above what it takes. -/
theorem Turn.TakesLowest.lt_of_tasksAt_found {x : Turn} (h : x.TakesLowest) {r : Release}
    (hr : x.release = some r) {y : Coord} (hne : tasksAt y x.found.tasks ≠ [])
    (hy : y ≠ r.elevation) : r.elevation < y := by
  obtain ⟨t, ht⟩ := List.exists_mem_of_ne_nil _ hne
  obtain ⟨hfound, rfl⟩ := mem_tasksAt.1 ht
  exact Coord.lt_of_le_of_ne ((h.least r hr).2 t hfound) (Ne.symm hy)

/-! ## What waits, in the order of admission -/

/-- Of the tasks admitted at an elevation those released come first, then those that wait. -/
theorem flow_waiting : Flow (fun gs ts _ _ s => s.layers.Ordered ∧ (∀ x ∈ ts, x.TakesLowest) ∧
    ∀ y, tasksAt y gs.flatten
      = tasksAt y ((ts.flatMap Turn.appointments).map Appointment.task)
        ++ tasksAt y s.layers.tasks) where
  accept {gs ts xs n s} h _ p := by
    obtain ⟨hordered, hturns, hat⟩ := h
    obtain ⟨hordered', hat'⟩ := Scheduler.accept_ordered hordered p.id p.damage
    refine ⟨hordered', hturns, fun y => ?_⟩
    rw [List.flatten_append, tasksAt_append, hat, hat', List.append_assoc]
    simp
  turn {gs ts xs n s} h _ ω _ world := by
    obtain ⟨hordered, hturns, hat⟩ := h
    obtain ⟨hlowest, hordered'⟩ := Scheduler.turn_takesLowest hordered
    refine ⟨hordered', ?_, fun y => ?_⟩
    · exact List.forall_mem_append.2 ⟨hturns, by simpa using hlowest⟩
    · have hsplit : tasksAt y s.layers.tasks = _ := hlowest.tasksAt_found y
      rw [hat, hsplit]
      simp only [List.flatMap_append, List.map_append, tasksAt_append, List.append_assoc]
      simp
      rfl
  frame {gs ts xs n s s'} h hlayers _ _ _ := by rwa [hlayers]

/-! ## Leaving -/

/-- However the appointments `as` follow each other, what waits in the queue leaves in order: of
    the tasks waiting at an elevation either none gets an appointment, and then no higher task
    does, or the first appointments at that elevation are theirs, in their order and all made on
    one tick, and every higher task gets its appointment on a later tick. -/
def LayerQueue.LeavesInOrder (q : LayerQueue) (as : List Appointment) : Prop :=
  ∀ y, tasksAt y q.tasks ≠ [] →
    (∀ b ∈ as, b.task.pos.y < y) ∨
    ∃ batch made, batch <+: as.filter (·.task.pos.y = y) ∧
      batch.map Appointment.task = tasksAt y q.tasks ∧ (∀ a ∈ batch, a.made = made) ∧
      ∀ b ∈ as, y < b.task.pos.y → made < b.made

namespace LayerQueue.LeavesInOrder

variable {q q' : LayerQueue} {as : List Appointment}

/-- What waits leaves in order if it does so after more has come to wait behind it. -/
theorem of_grows (h : q'.LeavesInOrder as)
    (hgrows : ∀ y, tasksAt y q.tasks <+: tasksAt y q'.tasks) : q.LeavesInOrder as := by
  intro y hne
  have hne' : tasksAt y q'.tasks ≠ [] := fun hnil => hne (List.prefix_nil.1 (hnil ▸ hgrows y))
  rcases h y hne' with hnone | ⟨batch, made, hfirst, hmap, hmade, hlater⟩
  · exact Or.inl hnone
  · -- those that waited already are the first of the batch
    refine Or.inr ⟨batch.take (tasksAt y q.tasks).length, made,
      (List.take_prefix _ _).trans hfirst, ?_, fun a ha => hmade a (List.mem_of_mem_take ha),
      hlater⟩
    rw [List.map_take, hmap]
    exact (List.prefix_iff_eq_take.1 (hgrows y)).symm

/-- What a release phase finds leaves in order if what it leaves behind does. -/
theorem of_turn {x : Turn} (hlowest : x.TakesLowest) (h : x.left.LeavesInOrder as)
    (hlater : ∀ a ∈ as, x.tick < a.made) :
    x.found.LeavesInOrder (x.appointments ++ as) := by
  cases hr : x.release with
  | none =>
      obtain ⟨hnil, hleft⟩ := hlowest.nothing hr
      rwa [hnil, List.nil_append, ← hleft]
  | some r =>
      have hlevel := hlowest.elevation_appointments hr
      intro y hne
      by_cases hy : y = r.elevation
      · -- these tasks are released now, and everything else is released later
        subst hy
        refine Or.inr ⟨x.appointments, x.tick, ?_, (hlowest.taken r hr).1, hlowest.made, ?_⟩
        · rw [List.filter_append, List.filter_eq_self.2 (by simpa using hlevel)]
          exact List.prefix_append _ _
        · intro b hb hlt
          rcases List.mem_append.1 hb with hb | hb
          · exact absurd (hlevel b hb).symm (Coord.ne_of_lt hlt)
          · exact hlater b hb
      · -- they are left behind, and what is released now stands below them
        have hbelow := hlowest.lt_of_tasksAt_found hr hne hy
        have hleft : tasksAt y x.found.tasks = tasksAt y x.left.tasks := by
          rw [hlowest.tasksAt_found, tasksAt_eq_nil, List.nil_append]
          rintro t ht rfl
          obtain ⟨a, ha, rfl⟩ := List.mem_map.1 ht
          exact hy (hlevel a ha)
        rw [hleft] at hne ⊢
        rcases h y hne with hnone | ⟨batch, made, hfirst, hmap, hmade, hhigher⟩
        · refine Or.inl fun b hb => ?_
          rcases List.mem_append.1 hb with hb | hb
          · rwa [hlevel b hb]
          · exact hnone b hb
        · refine Or.inr ⟨batch, made, ?_, hmap, hmade, fun b hb hlt => ?_⟩
          · rwa [List.filter_append, List.filter_eq_nil_iff.2, List.nil_append]
            intro a ha heq
            exact hy ((of_decide_eq_true heq).symm.trans (hlevel a ha))
          · rcases List.mem_append.1 hb with hb | hb
            · rw [hlevel b hb] at hlt
              exact absurd rfl (Coord.ne_of_lt (Coord.lt_trans hlt hbelow))
            · exact hhigher b hb hlt

end LayerQueue.LeavesInOrder

namespace Scheduler

variable {s : Scheduler}

theorem acceptAll_append (s : Scheduler) (ps qs : List Parcel) :
    (s.acceptAll (ps ++ qs)).2 = ((s.acceptAll ps).2.acceptAll qs).2 ∧
      s.admitAll (ps ++ qs) = s.admitAll ps ++ (s.acceptAll ps).2.admitAll qs := by
  induction ps generalizing s with
  | nil => exact ⟨rfl, rfl⟩
  | cons p rest ih =>
      obtain ⟨hstate, hgroups⟩ := ih (s.accept p.id p.damage).2
      exact ⟨hstate, congrArg (_ :: ·) hgroups⟩

theorem Ticks.received_ordered {d : Deed} {clock : Clock} (h : s.Ticks d clock)
    (hordered : s.layers.Ordered) : (s.received clock).layers.Ordered ∧
      ∀ y, tasksAt y (s.received clock).layers.tasks
        = tasksAt y s.layers.tasks ++ tasksAt y (s.admissionsOn d).flatten := by
  rw [h.admissions]
  exact @acceptAll_ordered (s.atIntake clock) hordered s.funnel.waiting

theorem ordered_after (h : s.layers.Ordered) (d : Deed) : (s.after d).layers.Ordered := by
  rcases s.deed_cases d with ⟨p, rfl⟩ | hquiet | ⟨clock, hticks⟩
  · exact (accept_ordered h p.id p.damage).1
  · obtain ⟨_, _, hafter⟩ := hquiet.after_eq
    rwa [hafter]
  · rw [hticks.layers_eq]
    exact (turn_takesLowest (hticks.received_ordered h).1).2

/-- What waits when a tick comes to its release leaves in order if what it leaves behind does. -/
theorem Ticks.leavesInOrder {d : Deed} {clock : Clock} (h : s.Ticks d clock)
    (hordered : s.layers.Ordered) {rest : List Deed}
    (hrest : (s.after d).layers.LeavesInOrder ((s.after d).appointed rest)) :
    (s.received clock).layers.LeavesInOrder (s.appointed (d :: rest)) := by
  rw [appointed_cons, h.turns, List.flatMap_singleton]
  rw [h.layers_eq] at hrest
  refine hrest.of_turn (turn_takesLowest (h.received_ordered hordered).1).1 fun a ha => ?_
  have hlater := (made_of_mem_appointed ha).1
  rw [h.clock_eq] at hlater
  rwa [Capped.lt_def, show (s.received clock).turn.tick = clock.now from
    congrArg Clock.now (s.received_clock clock)]

/-- However a run goes on, what waits at its start leaves in order. -/
theorem leavesInOrder (h : s.layers.Ordered) (deeds : List Deed) :
    s.layers.LeavesInOrder (s.appointed deeds) := by
  induction deeds generalizing s with
  | nil => exact fun y _ => Or.inl (by simp [appointed, turns, gather])
  | cons d rest ih =>
      -- what the first deed leaves behind leaves in order; the deed itself adds at the ends, or
      -- takes out the lowest
      have hrest := ih (ordered_after h d)
      rcases s.deed_cases d with ⟨p, rfl⟩ | hquiet | ⟨clock, hticks⟩
      · refine hrest.of_grows fun y => ?_
        rw [Scheduler.after, (accept_ordered h p.id p.damage).2 y]
        exact List.prefix_append _ _
      · obtain ⟨_, _, hafter⟩ := hquiet.after_eq
        rw [appointed_cons, hquiet.turns]
        rw [hafter] at hrest ⊢
        exact hrest
      · refine (hticks.leavesInOrder h hrest).of_grows fun y => ?_
        rw [(hticks.received_ordered h).2 y]
        exact List.prefix_append _ _

/-- At every moment of a run what waits leaves in order. -/
theorem Passes.leavesInOrder (hordered : ∀ deeds, (s.run deeds).layers.Ordered)
    {before after : List Deed} {gs : List (List Task)} {m : Scheduler}
    (hm : s.Passes before after gs m) :
    m.layers.LeavesInOrder ((s.run before).appointed after) := by
  cases hm with
  | between => exact Scheduler.leavesInOrder (hordered before) after
  | @within _ _ _ _ _ world listener after clock moved taken rest split =>
      have htick := (ticks_of_advance moved world listener).leavesInOrder (hordered before)
        (Scheduler.leavesInOrder (ordered_after (hordered before) _) after)
      -- what is still to be taken in joins the ends of the lines
      refine htick.of_grows fun y => ?_
      have hmid := (@acceptAll_ordered ((s.run before).atIntake clock) (hordered before) taken).1
      rw [received, split, (acceptAll_append _ taken rest).1, (acceptAll_ordered hmid rest).2 y]
      exact List.prefix_append _ _

end Scheduler

/-! ## Between two admissions -/

/-- The elevations that some release phases release, in order. -/
def elevationsOf (xs : List Turn) : List Coord :=
  xs.filterMap fun x => x.release.map Release.elevation

theorem elevationsOf_append (xs ys : List Turn) :
    elevationsOf (xs ++ ys) = elevationsOf xs ++ elevationsOf ys :=
  List.filterMap_append

theorem LayerQueue.Ordered.pairwise_elevations {q : LayerQueue} (h : q.Ordered) :
    q.elevations.Pairwise (· < ·) :=
  List.pairwise_map.2 h.ascending

namespace Scheduler

variable {s : Scheduler}

/-- What a release phase releases and what it leaves behind are the layers it finds. -/
theorem elevations_turn (s : Scheduler) :
    elevationsOf [s.turn] ++ s.turn.left.elevations = s.layers.elevations := by
  rcases s.turn_cases with ⟨_, -, hturn⟩ | ⟨_, _, _, _, _, hq, -, hturn, -⟩
  · simp [hturn, elevationsOf]
  · simp [hturn, elevationsOf, LayerQueue.elevations, hq]

theorem accept_discarded {id : DamageId} {d : Damage}
    (h : (s.accept id d).1.isAccepted = false) : (s.accept id d).2 = s := by
  rcases s.accept_cases id d with ⟨-, _, heq⟩ | ⟨-, _, _, _, heq, -⟩
  · rw [heq]
  · rw [heq] at h
    cases h

theorem acceptAll_discarded {ps : List Parcel}
    (h : ∀ i ∈ s.intakeAll ps, i.verdict.isAccepted = false) : (s.acceptAll ps).2 = s := by
  induction ps generalizing s with
  | nil => rfl
  | cons p rest ih =>
      rw [intakeAll, List.forall_mem_cons] at h
      exact (ih h.2).trans (accept_discarded h.1)

/-- While nothing is accepted, the layers released and those left at the end are the layers at the
    start. -/
theorem elevations_turns {deeds : List Deed}
    (h : ∀ i ∈ s.intakes deeds, i.verdict.isAccepted = false) :
    elevationsOf (s.turns deeds) ++ (s.run deeds).layers.elevations = s.layers.elevations := by
  induction deeds generalizing s with
  | nil => rfl
  | cons d rest ih =>
      rw [intakes, gather, List.forall_mem_append] at h
      have hrest := ih h.2
      replace hrest : elevationsOf ((s.after d).turns rest)
        ++ (s.run (d :: rest)).layers.elevations = (s.after d).layers.elevations := hrest
      rw [turns_cons, elevationsOf_append, List.append_assoc, hrest]
      rcases s.deed_cases d with ⟨p, rfl⟩ | hquiet | ⟨clock, hticks⟩
      · rw [Scheduler.after, accept_discarded (h.1 _ (List.mem_singleton_self _))]
        rfl
      · obtain ⟨_, _, hafter⟩ := hquiet.after_eq
        rw [hquiet.turns, hafter]
        rfl
      · -- a tick that accepts nothing comes to its release with the layers it began with
        have hsame : (s.received clock).layers = s.layers := by
          rw [hticks.intakes] at h
          rw [received, acceptAll_discarded h.1]
          rfl
        rw [hticks.turns, hticks.layers_eq, elevations_turn, hsame]

/-- The elevations released from a deed on ascend as long as nothing is accepted after it. -/
theorem ascend_turns (h : s.layers.Ordered) (d : Deed) {middle : List Deed}
    (hnone : ∀ i ∈ (s.after d).intakes middle, i.verdict.isAccepted = false) :
    (elevationsOf (s.turns (d :: middle))).Pairwise (· < ·) := by
  have hdeed : (elevationsOf (s.turnsOn d) ++ (s.after d).layers.elevations).Pairwise (· < ·) := by
    rcases s.deed_cases d with ⟨p, rfl⟩ | hquiet | ⟨clock, hticks⟩
    · exact (ordered_after h _).pairwise_elevations
    · rw [hquiet.turns]
      exact (ordered_after h d).pairwise_elevations
    · rw [hticks.turns, hticks.layers_eq, elevations_turn]
      exact (hticks.received_ordered h).1.pairwise_elevations
  -- what is released later has been waiting since the deed
  rw [← elevations_turns hnone, ← List.append_assoc] at hdeed
  rw [turns_cons, elevationsOf_append]
  exact (List.pairwise_append.1 hdeed).1

end Scheduler

/-! ## Every run -/

/-- A scheduler releases lower layers first. -/
structure Scheduler.LowestFirst (s : Scheduler) : Prop where
  /-- Each intake of a run admits tasks for its damage. -/
  admits : ∀ deeds, List.Forall₂ Intake.Admits (s.intakes deeds) (s.admissions deeds)
  /-- Each release phase takes the tasks of the least elevation that waits. -/
  lowest : ∀ deeds, ∀ x ∈ s.turns deeds, x.TakesLowest
  /-- The release phase of a tick is the one that its report speaks of, and it finds what waited
      before the tick and what the tick admitted. -/
  ticks : ∀ deeds {ω η : Type} [Ground ω] [Listener η] (world : ω) (listener : η)
    (r : Ticked ω η), (s.run deeds).tick world listener = .ok r →
    ∃ x : Turn, (s.run deeds).turnsOn (.tick world listener) = [x] ∧
      x.Reported (s.run deeds) r ∧ ∀ y, tasksAt y x.found.tasks
        = tasksAt y (s.run deeds).layers.tasks
          ++ tasksAt y ((s.run deeds).admissionsOn (.tick world listener)).flatten
  /-- At each elevation the tasks released and then those that wait are those admitted so far, in
      the order of their admission. -/
  waiting : ∀ {before after : List Deed} {gs : List (List Task)} {m : Scheduler},
    s.Passes before after gs m → gs <+: s.admissions (before ++ after) ∧ ∀ y,
      tasksAt y gs.flatten
        = tasksAt y ((s.appointed before).map Appointment.task) ++ tasksAt y m.layers.tasks
  /-- What waits at the same moment leaves in order of elevation, and what waits at one elevation
      leaves together and in order. -/
  leaves : ∀ {before after : List Deed} {gs : List (List Task)} {m : Scheduler},
    s.Passes before after gs m → m.layers.LeavesInOrder ((s.run before).appointed after)
  /-- As long as nothing more is accepted after a deed, the elevations released from that deed on
      ascend strictly. -/
  ascend : ∀ before d middle,
    (∀ i ∈ (s.run (before ++ [d])).intakes middle, i.verdict.isAccepted = false) →
    (elevationsOf ((s.run before).turns (d :: middle))).Pairwise (· < ·)

section Reachable

variable {settings : Regeneration} {seed : Tick} {s : Scheduler}

theorem Scheduler.waiting_start (fresh : Scheduler.new settings seed = .ok s) :
    s.layers.Ordered ∧ (∀ x ∈ ([] : List Turn), x.TakesLowest) ∧ ∀ y,
      tasksAt y ([] : List (List Task)).flatten
        = tasksAt y ((([] : List Turn).flatMap Turn.appointments).map Appointment.task)
          ++ tasksAt y s.layers.tasks := by
  obtain ⟨-, hlayers, -⟩ := Scheduler.new_eq fresh
  rw [hlayers]
  exact ⟨LayerQueue.ordered_empty, by simp, fun y => rfl⟩

theorem Scheduler.ordered_run (fresh : Scheduler.new settings seed = .ok s)
    (deeds : List Deed) : (s.run deeds).layers.Ordered :=
  (flow_waiting.run fresh (waiting_start fresh) deeds).1

/-- The groups admitted until some moment of a run are the first ones of the run. -/
theorem Scheduler.Passes.admissions_begin {before after : List Deed} {gs : List (List Task)}
    {m : Scheduler} (hm : s.Passes before after gs m) :
    gs <+: s.admissions (before ++ after) := by
  rw [admissions, gather_append]
  cases hm with
  | between => exact List.prefix_append _ _
  | @within _ _ _ _ _ world listener after clock moved taken rest split =>
      have hone : (s.run before).admissionsOn (.tick world listener)
          = ((s.run before).atIntake clock).admitAll taken
            ++ (((s.run before).atIntake clock).acceptAll taken).2.admitAll rest := by
        rw [admissionsOn, moved, split]
        exact (acceptAll_append _ taken rest).2
      rw [gather, hone, List.append_assoc]
      exact (List.prefix_append_right_inj _).2 (List.prefix_append _ _)

/-- **Lower layers first.** In every run of a fresh scheduler, whatever is admitted meanwhile, what
    waits at the same moment is released in order of elevation and, at one elevation, together and
    in order of admission; each release takes all tasks of the least elevation and no others; and
    while nothing is admitted the elevations released ascend strictly. -/
theorem lowest_first (fresh : Scheduler.new settings seed = .ok s) : s.LowestFirst where
  admits := s.admits_run
  lowest deeds := (flow_waiting.run fresh (Scheduler.waiting_start fresh) deeds).2.1
  ticks deeds _ _ _ _ world listener r h := by
    obtain ⟨x, hone, hreported⟩ := Scheduler.turnsOn_tick h
    obtain ⟨clock, hclock, -⟩ := Scheduler.tick_eq_ok h
    have hticks := Scheduler.ticks_of_advance hclock world listener
    obtain rfl := List.singleton_inj.1 (hticks.turns.symm.trans hone)
    exact ⟨_, hone, hreported, (hticks.received_ordered (Scheduler.ordered_run fresh deeds)).2⟩
  waiting hm := ⟨hm.admissions_begin,
    (flow_waiting.passes fresh (Scheduler.waiting_start fresh) hm).2.2⟩
  leaves hm := hm.leavesInOrder (Scheduler.ordered_run fresh)
  ascend before d middle h := by
    rw [Scheduler.run_concat] at h
    exact Scheduler.ascend_turns (Scheduler.ordered_run fresh before) d h

/-- A layer below those that wait is released before them, and what joins an elevation that waits
    is released with it. -/
theorem lowest_first_joined : ∃ s, Scheduler.new Regeneration.default 7 = .ok s ∧ s.LowestFirst ∧
    let tick : Deed := .tick (Atlas.empty []) ()
    let deeds : List Deed := [.submit (quarried 1 [(0, 1), (0, 2)]), tick,
      .send (quarried 2 [(1, 2), (0, 0)]), tick, tick, tick, tick]
    (elevationsOf (s.turns deeds)).map Coord.val = [1, 0, 2] ∧
      (s.appointed deeds).map (fun a => (a.task.damage, a.made))
        = [(DamageId.ofNat 1, 1), (DamageId.ofNat 2, 3), (DamageId.ofNat 1, 5),
          (DamageId.ofNat 2, 5)] :=
  ⟨_, rfl, @lowest_first Regeneration.default 7 _ rfl, by decide +kernel, by decide +kernel⟩

end Reachable

end Mend
