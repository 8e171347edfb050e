import Mend.Proofs.Atlas.Carving
import Mend.Proofs.Scheduler.Bookkeeping

set_option autoImplicit false

/-! # A blasted atlas heals

What blasts take from an atlas is owed to it until it is put back. A repair says what is owed to
which cell; the repairs owed are those of the damage in the funnel and of the tasks underway.

The invariant is `Owes`: compared with how the atlas was before the blasts, each cell that is owed
a repair stands vacant and the repair is of what stood there before, no cell is owed two, and all
other cells are as they were. A blast takes cells that are owed nothing and owes a repair for
each; firing the task of a repair puts it back, since nothing on its cell is in the way and nothing
refuses it. Where nothing is owed, the atlas is as it was (`blasted_heals`). -/

namespace Mend

/-! ## Repairs -/

/-- What is owed to a cell. -/
structure Repair where
  world : WorldName
  pos : Pos
  content : Content

/-- The cell that a repair is for. -/
def Repair.cell (r : Repair) : WorldName × Pos := (r.world, r.pos)

/-- The repair that a task makes. -/
def Task.repair (t : Task) : Repair := ⟨t.world, t.pos, t.content⟩

/-- The repairs that damage calls for. -/
def Damage.repairs (d : Damage) : List Repair := d.cells.map fun c => ⟨d.world, c.pos, c.content⟩

theorem Damage.cells_repairs (d : Damage) :
    d.repairs.map Repair.cell = (d.cells.map LostCell.pos).map (Prod.mk d.world) := by
  rw [repairs, List.map_map, List.map_map]
  rfl

/-- The repairs called for by damage in the funnel. -/
def Funnel.repairs (f : Funnel) : List Repair := f.waiting.flatMap (·.damage.repairs)

/-- The repairs that a scheduler has yet to make. -/
def Scheduler.repairs (s : Scheduler) : List Repair :=
  s.funnel.repairs ++ s.liveTasks.map Task.repair

/-- The atlas `now` is the atlas `before`, except for the cells owed the repairs `rs`. -/
structure Owes (before now : Atlas) (rs : List Repair) : Prop where
  /-- No cell is owed two repairs. -/
  distinct : (rs.map Repair.cell).Nodup
  /-- What is owed to a cell stood there before. -/
  owed : ∀ r ∈ rs, before.contentAt? r.world r.pos = some r.content
  /-- Nothing is in the way of a repair. -/
  vacant : ∀ r ∈ rs, now.isVacantMaterial (now.materialAt r.world r.pos) = true
  other : ∀ name pos, (name, pos) ∉ rs.map Repair.cell →
    now.contentAt? name pos = before.contentAt? name pos
  provenance : ∀ name pos, now.provenanceAt name pos = before.provenanceAt name pos
  worlds : ∀ name, now.hasWorld name = before.hasWorld name
  loaded : now.Loaded
  sameVacant : now.vacant = before.vacant
  accepting : now.rejected = []

namespace Owes

variable {before now : Atlas} {rs : List Repair}

/-- Nothing is owed to an atlas at first. -/
theorem start (loaded : before.Loaded) (accepting : before.rejected = []) :
    Owes before before [] where
  distinct := List.nodup_nil
  owed _ hr := absurd hr List.not_mem_nil
  vacant _ hr := absurd hr List.not_mem_nil
  other _ _ _ := rfl
  provenance _ _ := rfl
  worlds _ := rfl
  loaded := loaded
  sameVacant := rfl
  accepting := accepting

/-- In which order repairs are listed does not matter. -/
theorem perm {rs' : List Repair} (h : Owes before now rs) (hperm : rs.Perm rs') :
    Owes before now rs' where
  distinct := (hperm.map _).nodup_iff.1 h.distinct
  owed r hr := h.owed r (hperm.mem_iff.2 hr)
  vacant r hr := h.vacant r (hperm.mem_iff.2 hr)
  other name pos hnot := h.other name pos fun hmem => hnot ((hperm.map _).mem_iff.1 hmem)
  provenance := h.provenance
  worlds := h.worlds
  loaded := h.loaded
  sameVacant := h.sameVacant
  accepting := h.accepting

/-- What happens to the signals does not matter. -/
theorem signals (h : Owes before now rs) (signals : Array Signal) :
    Owes before { now with signals } rs where
  distinct := h.distinct
  owed := h.owed
  vacant := h.vacant
  other := h.other
  provenance := h.provenance
  worlds := h.worlds
  loaded := h.loaded
  sameVacant := h.sameVacant
  accepting := h.accepting

theorem isVacantMaterial_eq (h : Owes before now rs) (material : String) :
    now.isVacantMaterial material = before.isVacantMaterial material := by
  rw [Atlas.isVacantMaterial, Atlas.isVacantMaterial, h.sameVacant]

/-- Changing the cells of one world leaves alone everything but what the cells hold. -/
theorem replace (h : Owes before now rs) {name : WorldName} {w w' : World}
    (hw : now.world? name = some w) (hplaced : w'.placed = w.placed)
    (hunloaded : w'.unloaded = w.unloaded) {rs' : List Repair}
    (distinct : (rs'.map Repair.cell).Nodup)
    (owed : ∀ r ∈ rs', before.contentAt? r.world r.pos = some r.content)
    (vacant : ∀ r ∈ rs', now.isVacantMaterial
      (({ now with worlds := now.worlds.insert name w' } : Atlas).materialAt r.world r.pos) = true)
    (other : ∀ n pos, (n, pos) ∉ rs'.map Repair.cell →
      ({ now with worlds := now.worlds.insert name w' } : Atlas).contentAt? n pos
        = before.contentAt? n pos) :
    Owes before { now with worlds := now.worlds.insert name w' } rs' where
  distinct := distinct
  owed := owed
  vacant := vacant
  other := other
  provenance n pos := by
    rw [Atlas.provenanceAt_insert, ← h.provenance]
    split_ifs with hn
    · simp only [← hn, Atlas.provenanceAt, hw, World.provenanceAt, hplaced]
    · rfl
  worlds n := by
    rw [← h.worlds, Atlas.hasWorld_eq, Atlas.hasWorld_eq, Atlas.world?_insert]
    split_ifs with hn
    · rw [← hn, hw]
      rfl
    · rfl
  loaded := h.loaded.insert (hunloaded.trans (h.loaded name w hw))
  sameVacant := h.sameVacant
  accepting := h.accepting

/-! ## Blasts -/

/-- A blast in a world takes cells that are owed nothing, and owes a repair for each. Where it
    leaves fire, that must not be in the way of a repair. -/
theorem explode (h : Owes before now rs) (hair : before.isVacantMaterial air = true)
    {name : WorldName} {blast : Blast} {d : Damage} {after : Atlas}
    (hfire : blast.incendiary = true → before.isVacantMaterial fireMaterial = true)
    (hblast : now.explode name blast = (.ok d, after)) : Owes before after (d.repairs ++ rs) := by
  obtain ⟨w, lost, w', hw, hspec, rfl, rfl⟩ := Atlas.explode_eq_ok hblast
  have hcells : ∀ pos, now.contentAt? name pos = w.cells[pos]? := by
    intro pos
    rw [Atlas.contentAt?, hw, Option.bind_some]
  -- what was taken did not stand vacant, so nothing is owed to its cell
  have hfree : ∀ c ∈ lost, (name, c.pos) ∉ rs.map Repair.cell := by
    intro c hc hmem
    obtain ⟨r, hr, hcell⟩ := List.mem_map.1 hmem
    obtain ⟨rfl, hpos⟩ := Prod.mk.inj hcell
    obtain ⟨htaken, hsolid, -⟩ := hspec.taken c hc
    have hvacant := h.vacant r hr
    rw [Atlas.isVacantMaterial, Atlas.materialAt, hpos, hcells, htaken] at hvacant
    exact absurd (hsolid.symm.trans hvacant) Bool.false_ne_true
  -- a cell from which nothing was taken reads as before
  have hsame : ∀ n pos, (∀ c ∈ lost, (n, pos) ≠ (name, c.pos)) →
      ({ now with worlds := now.worlds.insert name w' } : Atlas).contentAt? n pos
        = now.contentAt? n pos := by
    intro n pos hnot
    rw [Atlas.contentAt?_insert]
    split_ifs with hn
    · subst hn
      rw [hcells]
      refine hspec.other pos fun hmem => ?_
      obtain ⟨c, hc, rfl⟩ := List.mem_map.1 hmem
      exact hnot c hc rfl
    · rfl
  refine h.replace hw hspec.placed hspec.unloaded ?_ ?_ ?_ ?_
  · rw [List.map_append, List.nodup_append]
    refine ⟨?_, h.distinct, ?_⟩
    · rw [Damage.cells_repairs]
      exact hspec.distinct.map fun p q heq => (Prod.mk.inj heq).2
    · intro cell hcell cell' hcell' heq
      obtain ⟨r, hr, rfl⟩ := List.mem_map.1 hcell
      obtain ⟨c, hc, rfl⟩ := List.mem_map.1 hr
      subst heq
      exact hfree c hc hcell'
  · intro r hr
    rcases List.mem_append.1 hr with hr | hr
    · obtain ⟨c, hc, rfl⟩ := List.mem_map.1 hr
      show before.contentAt? name c.pos = some c.content
      rw [← h.other name c.pos (hfree c hc), hcells]
      exact (hspec.taken c hc).1
    · exact h.owed r hr
  · intro r hr
    rcases List.mem_append.1 hr with hr | hr
    · obtain ⟨c, hc, rfl⟩ := List.mem_map.1 hr
      rw [h.isVacantMaterial_eq, Atlas.materialAt, Atlas.contentAt?_insert, if_pos rfl]
      rcases hspec.left c hc with hleft | ⟨hincendiary, hleft⟩
      · simpa [hleft] using hair
      · rw [hleft]
        exact hfire hincendiary
    · rw [Atlas.materialAt, hsame]
      · exact h.vacant r hr
      · intro c hc heq
        exact hfree c hc (heq ▸ List.mem_map_of_mem hr)
  · intro n pos hnot
    rw [List.map_append, List.mem_append, not_or] at hnot
    rw [hsame, h.other n pos hnot.2]
    intro c hc heq
    exact hnot.1 (heq ▸ List.mem_map_of_mem (List.mem_map_of_mem hc))

/-! ## Firing -/

/-- Firing a task makes its repair. -/
theorem fire (hsolid : before.Solid) {t : Task} (h : Owes before now (t.repair :: rs)) :
    Owes before (Scheduler.fire now t).2 rs := by
  have howed : before.contentAt? t.world t.pos = some t.content := h.owed _ List.mem_cons_self
  have hvacant : now.isVacantMaterial (now.materialAt t.world t.pos) = true :=
    h.vacant _ List.mem_cons_self
  -- the world of the cell was there before, so it is there now
  obtain ⟨w, hw⟩ : ∃ w, now.world? t.world = some w := by
    obtain ⟨v, hv⟩ := Atlas.world?_of_contentAt? howed
    have hworld := h.worlds t.world
    rw [Atlas.hasWorld_eq, Atlas.hasWorld_eq, hv] at hworld
    exact Option.isSome_iff_exists.1 hworld
  have hrestore := @Atlas.restore_eq_ok now t.world w t.pos t.content hw
    (by simp [World.isLoaded, h.loaded t.world w hw]) (by simp [h.accepting])
    (hsolid.contentAt? howed)
  obtain ⟨signals, hsignal⟩ := Atlas.signal_eq
    { now with
      worlds := now.worlds.insert t.world { w with cells := w.cells.insert t.pos t.content } }
    t.world t.pos
  have hfire : (Scheduler.fire now t).2 = { now with
      worlds := now.worlds.insert t.world { w with cells := w.cells.insert t.pos t.content }
      signals } := by
    rw [Scheduler.fire, show Ground.isVacant now t.world t.pos = true from hvacant, if_pos rfl,
      show Ground.restore now t.world t.pos t.content = _ from hrestore]
    exact hsignal
  -- no other repair is for this cell, so what the others say of their cells stays true
  have hdistinct := h.distinct
  rw [List.map_cons, List.nodup_cons] at hdistinct
  rw [hfire]
  suffices hrepaired : Owes before { now with
      worlds := now.worlds.insert t.world { w with cells := w.cells.insert t.pos t.content } } rs
    from hrepaired.signals signals
  refine h.replace hw (by rfl) (by rfl) hdistinct.2 ?_ ?_ ?_
  · exact fun r hr => h.owed r (List.mem_cons_of_mem _ hr)
  · intro r hr
    have hne : (t.world, t.pos) ≠ (r.world, r.pos) :=
      fun heq => hdistinct.1 (List.mem_map.2 ⟨r, hr, heq.symm⟩)
    rw [Atlas.materialAt, Atlas.contentAt?_insert_cell _ _ _ _ _ hw, if_neg hne]
    exact h.vacant r (List.mem_cons_of_mem _ hr)
  · intro n pos hnot
    rw [Atlas.contentAt?_insert_cell _ _ _ _ _ hw]
    split_ifs with hcell
    · obtain ⟨rfl, rfl⟩ := Prod.mk.inj hcell
      exact howed.symm
    · refine h.other n pos fun hmem => ?_
      rcases List.mem_cons.1 hmem with heq | hmem
      · exact hcell heq.symm
      · exact hnot hmem

/-- Firing tasks makes their repairs. -/
theorem fireAll (hsolid : before.Solid) (ts : List Task)
    (h : Owes before now (ts.map Task.repair ++ rs)) :
    Owes before (ts.foldl (fun a t => (Scheduler.fire a t).2) now) rs := by
  induction ts generalizing now with
  | nil => exact h
  | cons t rest ih => exact ih (h.fire hsolid)

end Owes

/-! ## Taking in damage -/

namespace Scheduler

variable {s : Scheduler}

/-- What is underway in a scheduler without a cap: its pending cells are those of its tasks. -/
structure Uncapped (s : Scheduler) : Prop where
  holds : s.pending.Holds (s.liveTasks.map Task.cell)
  cap : s.cap = none

/-- Damage whose cells are different, and none of which has a task underway, is taken in whole. -/
theorem accept_repairs (h : s.Uncapped) (hon : s.pacing.isDisabled = false) (p : Parcel)
    (hdistinct : ((p.damage.repairs ++ s.liveTasks.map Task.repair).map Repair.cell).Nodup) :
    (s.accept p.id p.damage).2.Uncapped ∧
      ((s.accept p.id p.damage).2.liveTasks.map Task.repair).Perm
        (p.damage.repairs ++ s.liveTasks.map Task.repair) := by
  rw [List.map_append, List.nodup_append, Damage.cells_repairs] at hdistinct
  obtain ⟨hcells, -, hfree⟩ := hdistinct
  have htaken : s.eligible p.damage = p.damage.cells := by
    rw [eligible, h.cap]
    refine Sifted.taken_eq_self _ (hcells.of_map _) fun c hc => ?_
    rw [Bool.eq_false_iff, Ne, h.holds.contains_iff]
    intro hmem
    refine hfree _ (List.mem_map_of_mem (List.mem_map_of_mem hc)) (p.damage.world, c.pos) ?_ rfl
    rw [List.map_map]
    exact hmem
  have hnew : (s.newTasks p.id p.damage).map Task.repair = p.damage.repairs := by
    rw [Damage.repairs, ← htaken]
    exact s.map_newTasks p.id p.damage Repair.mk hon
  have hlive := s.accept_liveTasks p.id p.damage
  refine ⟨⟨?_, ?_⟩, ?_⟩
  · have hholds := @Kept.accept _ _ kept_pending [] [] s.liveTasks s h.holds p trivial
    exact hholds.perm (hlive.symm.map Task.cell)
  · obtain ⟨_, _, _, _, heq⟩ := s.accept_eq p.id p.damage
    rw [heq]
    exact h.cap
  · refine (hlive.map Task.repair).trans ?_
    rw [List.map_append, hnew]
    exact List.perm_append_comm

@[simp] theorem accept_pacing (s : Scheduler) (id : DamageId) (d : Damage) :
    (s.accept id d).2.pacing = s.pacing := by
  obtain ⟨_, _, _, _, heq⟩ := s.accept_eq id d
  rw [heq]

/-- Several parcels whose cells are different, and none of which has a task underway, are taken
    in whole. -/
theorem acceptAll_repairs (ps : List Parcel) (h : s.Uncapped)
    (hon : ps = [] ∨ s.pacing.isDisabled = false)
    (hdistinct : ((ps.flatMap (·.damage.repairs) ++ s.liveTasks.map Task.repair).map
      Repair.cell).Nodup) :
    (s.acceptAll ps).2.Uncapped ∧ ((s.acceptAll ps).2.liveTasks.map Task.repair).Perm
      (ps.flatMap (·.damage.repairs) ++ s.liveTasks.map Task.repair) := by
  induction ps generalizing s with
  | nil => exact ⟨h, List.Perm.refl _⟩
  | cons p rest ih =>
      replace hon : s.pacing.isDisabled = false := hon.resolve_left (List.cons_ne_nil p rest)
      -- the first parcel stands before the rest on one side, behind it on the other
      have hswap : (rest.flatMap (·.damage.repairs) ++
          (p.damage.repairs ++ s.liveTasks.map Task.repair)).Perm
          ((p :: rest).flatMap (·.damage.repairs) ++ s.liveTasks.map Task.repair) := by
        rw [List.flatMap_cons, ← List.append_assoc]
        exact List.perm_append_comm.append_right _
      have hdistinct' := ((hswap.map Repair.cell).nodup_iff).2 hdistinct
      have hfirst : ((p.damage.repairs ++ s.liveTasks.map Task.repair).map Repair.cell).Nodup := by
        rw [List.map_append] at hdistinct'
        exact (List.nodup_append.1 hdistinct').2.1
      obtain ⟨hone, hperm⟩ := accept_repairs h hon p hfirst
      have hrest := (hperm.append_left (rest.flatMap (·.damage.repairs)))
      obtain ⟨hall, hperms⟩ := ih hone (Or.inr (s.accept_pacing p.id p.damage ▸ hon))
        (((hrest.map Repair.cell).nodup_iff).2 hdistinct')
      exact ⟨hall, hperms.trans (hrest.trans hswap)⟩

/-- When firing begins on a tick, every repair that was owed has a task underway. -/
theorem prepared_repairs (h : s.Uncapped) (hon : s.funnel.isEmpty = true ∨
    s.pacing.isDisabled = false) (hdistinct : (s.repairs.map Repair.cell).Nodup) (clock : Clock) :
    (s.prepared clock).Uncapped ∧
      ((s.prepared clock).liveTasks.map Task.repair).Perm s.repairs := by
  have hon' : s.funnel.waiting = [] ∨ s.pacing.isDisabled = false :=
    hon.imp_left List.isEmpty_iff.1
  obtain ⟨hintake, hperm⟩ := @acceptAll_repairs (s.atIntake clock) s.funnel.waiting
    ⟨h.holds, h.cap⟩ hon' hdistinct
  obtain ⟨drain, layers, agenda, random, hrel, hlive, -⟩ :=
    ((s.atIntake clock).acceptAll s.funnel.waiting).2.release_eq
  have hprepared : s.prepared clock
      = ((s.atIntake clock).acceptAll s.funnel.waiting).2.release.2 := rfl
  rw [hprepared, hrel]
  exact ⟨⟨hintake.holds.perm (hlive.symm.map Task.cell), hintake.cap⟩,
    (hlive.map Task.repair).trans hperm⟩

end Scheduler

/-! ## Every run of blasts and repairs -/

/-- What can become of an atlas and a scheduler by blasts, ticks and changes of speed: the damage
    of a blast is submitted or sent at once, fire is left only where it counts as vacant, and
    damage is not taken in while the speed is zero. -/
inductive Healing (before : Atlas) (fresh : Scheduler) : Atlas → Scheduler → Prop where
  | start : Healing before fresh before fresh
  | submit {now after : Atlas} {s : Scheduler} (healing : Healing before fresh now s)
      {name : WorldName} {blast : Blast} {d : Damage} (id : DamageId)
      (fire : blast.incendiary = true → before.isVacantMaterial fireMaterial = true)
      (exploded : now.explode name blast = (.ok d, after)) (speed : 1 ≤ s.speed.val) :
      Healing before fresh after (s.accept id d).2
  | send {now after : Atlas} {s s' : Scheduler} (healing : Healing before fresh now s)
      {name : WorldName} {blast : Blast} {d : Damage} (id : DamageId)
      (fire : blast.incendiary = true → before.isVacantMaterial fireMaterial = true)
      (exploded : now.explode name blast = (.ok d, after)) (sent : s.send id d = .ok s') :
      Healing before fresh after s'
  | setSpeed {now : Atlas} {s : Scheduler} (healing : Healing before fresh now s) (speed : Speed) :
      Healing before fresh now (s.withSpeed speed)
  | tick {now : Atlas} {s : Scheduler} (healing : Healing before fresh now s) {η : Type}
      [Listener η] (listener : η) {r : Scheduler.Ticked Atlas η}
      (speed : s.funnel.isEmpty = true ∨ 1 ≤ s.speed.val)
      (ticked : s.tick now listener = .ok r) : Healing before fresh r.world r.scheduler

/-- At a speed of at least one, damage is not discarded unseen. -/
theorem Scheduler.isDisabled_of_speed {s : Scheduler} (h : 1 ≤ s.speed.val) :
    s.pacing.isDisabled = false := by
  have hne : s.pacing.speed.val ≠ 0 := Nat.one_le_iff_ne_zero.1 h
  simpa [Pacing.isDisabled] using hne

/-- The atlas is owed exactly the repairs that the scheduler has yet to make. -/
structure Healing.Balanced (before now : Atlas) (s : Scheduler) : Prop where
  owes : Owes before now s.repairs
  uncapped : s.Uncapped

namespace Healing.Balanced

variable {before now : Atlas} {s : Scheduler}

/-- A tick makes the repairs that fall due on it. -/
theorem tick {η : Type} [Listener η] (h : Balanced before now s) (hsolid : before.Solid)
    {listener : η} {r : Scheduler.Ticked Atlas η}
    (hon : s.funnel.isEmpty = true ∨ s.pacing.isDisabled = false)
    (htick : s.tick now listener = .ok r) : Balanced before r.world r.scheduler := by
  obtain ⟨clock, -, -, -, -, hscheduler, hworld, -⟩ := Scheduler.tick_eq_ok htick
  obtain ⟨hprepared, hperm⟩ := Scheduler.prepared_repairs h.uncapped hon h.owes.distinct clock
  obtain ⟨_, _, _, _, _, _, heq⟩ := s.prepared_eq clock
  have hfunnel : (s.prepared clock).funnel.repairs = [] := by
    rw [heq]
    rfl
  rw [hscheduler, hworld]
  generalize s.prepared clock = ready at hprepared hperm hfunnel
  -- what falls due stands apart from what stays underway
  have hsplit : (ready.dueTasks.map Task.repair ++ ready.poised.liveTasks.map Task.repair).Perm
      (ready.liveTasks.map Task.repair) := by
    rw [← List.map_append]
    exact (ready.liveTasks_split.map Task.repair).symm
  have howes := (h.owes.perm (hsplit.trans hperm).symm).fireAll hsolid
  have hholds : ready.poised.pending.Holds
      ((ready.dueTasks ++ ready.poised.liveTasks).map Task.cell) :=
    hprepared.holds.perm (ready.liveTasks_split.map Task.cell)
  have hfired := @Kept.shots _ _ [] [] ready.poised Atlas _ kept_pending now ready.dueTasks
    ready.poised.liveTasks hholds
  rw [Scheduler.settleAll_eq] at hfired
  rw [Scheduler.settleAll_eq]
  refine ⟨?_, hfired, hprepared.cap⟩
  show Owes before _ (ready.funnel.repairs ++ ready.poised.liveTasks.map Task.repair)
  rw [hfunnel]
  exact howes

end Healing.Balanced

/-- Blasts, ticks and changes of speed keep the atlas and the scheduler balanced. -/
theorem Healing.balanced {before now : Atlas} {fresh s : Scheduler} (hsolid : before.Solid)
    (hstart : Balanced before before fresh) (h : Healing before fresh now s) :
    Balanced before now s := by
  induction h with
  | start => exact hstart
  | @submit now after s _ name blast d id hfire hblast hspeed ih =>
      have howes := ih.owes.explode hsolid.air_vacant hfire hblast
      have hon := Scheduler.isDisabled_of_speed hspeed
      -- the damage is new beside what is in the funnel and beside what is underway
      have hperm : (d.repairs ++ s.repairs).Perm
          (s.funnel.repairs ++ (d.repairs ++ s.liveTasks.map Task.repair)) := by
        rw [Scheduler.repairs, ← List.append_assoc, ← List.append_assoc]
        exact List.perm_append_comm.append_right _
      have hdistinct := (howes.perm hperm).distinct
      rw [List.map_append] at hdistinct
      obtain ⟨huncapped, htasks⟩ := Scheduler.accept_repairs ih.uncapped hon ⟨id, d⟩
        (List.nodup_append.1 hdistinct).2.1
      refine ⟨?_, huncapped⟩
      have hfunnel : (s.accept id d).2.funnel = s.funnel := by
        obtain ⟨_, _, _, _, heq⟩ := s.accept_eq id d
        rw [heq]
      rw [Scheduler.repairs, hfunnel]
      exact howes.perm (hperm.trans (htasks.symm.append_left _))
  | @send now after s s' _ name blast d id hfire hblast hsent ih =>
      have howes := ih.owes.explode hsolid.air_vacant hfire hblast
      obtain ⟨funnel, hfunnel, rfl⟩ := Scheduler.send_eq_ok hsent
      refine ⟨howes.perm ?_, ih.uncapped.holds, ih.uncapped.cap⟩
      have hrepairs : funnel.repairs = s.funnel.repairs ++ d.repairs := by
        simp [Funnel.repairs, Funnel.waiting_of_send hfunnel]
      show (d.repairs ++ s.repairs).Perm (funnel.repairs ++ s.liveTasks.map Task.repair)
      rw [hrepairs, Scheduler.repairs, ← List.append_assoc]
      exact List.perm_append_comm.append_right _
  | setSpeed _ speed ih => exact ⟨ih.owes, ih.uncapped.holds, ih.uncapped.cap⟩
  | tick _ listener hspeed hticked ih =>
      exact ih.tick hsolid (hspeed.imp_right Scheduler.isDisabled_of_speed) hticked

/-- An idle scheduler has no repairs to make. -/
theorem Scheduler.repairs_of_isIdle {s : Scheduler} (h : s.isIdle = true) : s.repairs = [] := by
  simp only [isIdle, Bool.and_eq_true] at h
  obtain ⟨⟨⟨hfunnel, hlayers⟩, hagenda⟩, -⟩ := h
  have hwaiting : s.funnel.waiting = [] := List.isEmpty_iff.1 hfunnel
  have hlayers' : s.layers.layers = [] := List.isEmpty_iff.1 hlayers
  rw [repairs, Funnel.repairs, hwaiting, liveTasks, Agenda.isEmpty_iff.1 hagenda,
    LayerQueue.tasks, hlayers']
  rfl

/-- **A blasted atlas heals.** Start with an atlas made by operations on atlases, in which
    everything is loaded and no material is refused, and a fresh scheduler without a cap. However
    blasts, ticks and changes of speed follow each other, whenever the scheduler is idle every
    position of every world holds what it held at first, and counts as built or not as it did at
    first. -/
theorem blasted_heals {before now : Atlas} {settings : Regeneration} {seed : Tick}
    {new s : Scheduler} (made : before.Made) (loaded : before.Loaded)
    (accepting : before.rejected = []) (fresh : Scheduler.new settings seed = .ok new)
    (uncapped : settings.maxPending.val = 0) (healing : Healing before new now s)
    (idle : s.isIdle = true) (name : WorldName) (pos : Pos) :
    now.contentAt? name pos = before.contentAt? name pos ∧
      now.provenanceAt name pos = before.provenanceAt name pos := by
  obtain ⟨hpending, hlayers, hagenda, -, hfunnel, hcap⟩ := Scheduler.new_eq fresh
  have hlive : new.liveTasks = [] := by
    rw [Scheduler.liveTasks, hlayers, hagenda]
    rfl
  have hrepairs : new.repairs = [] := by
    rw [Scheduler.repairs, hfunnel, hlive]
    rfl
  have hstart : Healing.Balanced before before new := by
    refine ⟨hrepairs.symm ▸ Owes.start loaded accepting, ?_, ?_⟩
    · rw [hpending, hlive]
      exact Pending.holds_empty
    · rw [hcap, Regeneration.cap, if_pos uncapped]
  have howes := (healing.balanced made.solid hstart).owes
  rw [Scheduler.repairs_of_isIdle idle] at howes
  exact ⟨howes.other name pos List.not_mem_nil, howes.provenance name pos⟩

/-! ## A column that is blasted twice -/

/-- An atlas and a scheduler after some ticks on which nothing else happens. -/
def Scheduler.rest : Nat → Atlas × Scheduler → Atlas × Scheduler
  | 0, site => site
  | n + 1, (a, s) => match s.tick a () with
    | .ok r => rest n (r.world, r.scheduler)
    | .error _ => (a, s)

/-- Ticks do not change the speed. -/
theorem Scheduler.speed_tick {ω η : Type} [Ground ω] [Listener η] {s : Scheduler} {world : ω}
    {listener : η} {r : Ticked ω η} (h : s.tick world listener = .ok r) :
    r.scheduler.speed = s.speed := by
  obtain ⟨clock, -, -, -, -, hscheduler, -⟩ := tick_eq_ok h
  obtain ⟨_, _, _, _, _, _, heq⟩ := s.prepared_eq clock
  rw [hscheduler, settleAll_eq]
  simp only [poised, heq, speed]

theorem Healing.rest {before now : Atlas} {fresh s : Scheduler} (h : Healing before fresh now s)
    (hspeed : 1 ≤ s.speed.val) (n : Nat) :
    Healing before fresh (Scheduler.rest n (now, s)).1 (Scheduler.rest n (now, s)).2 := by
  induction n generalizing now s with
  | zero => exact h
  | succ n ih =>
      rw [Scheduler.rest]
      split
      · next r hr => exact ih (h.tick () (Or.inr hspeed) hr) (Scheduler.speed_tick hr ▸ hspeed)
      · exact h

/-- An oak log, built on stone, on bedrock. Fire counts as vacant. -/
def column : Atlas :=
  let a := (Atlas.empty [fireMaterial]).withWorld "quarry"
  let a := (a.setNatural "quarry" (Pos.clamp 0 (-1) 0) (Content.plain "bedrock")).2
  let a := (a.setNatural "quarry" (Pos.clamp 0 0 0) (Content.plain "stone")).2
  (a.place "quarry" (Pos.clamp 0 1 0) ⟨"oak", (∅ : Properties).insert "axis" "y"⟩).2

theorem made_column : column.Made :=
  ((((Atlas.Made.empty _).withWorld _).setNatural _ _ _).setNatural _ _ _).place _ _ _

theorem loaded_column : column.Loaded :=
  ((((Atlas.loaded_empty _).withWorld _).setNatural _ _ _).setNatural _ _ _).place _ _ _

/-- Settings under which a layer is released on every tick and fires on the next. -/
def hasty : Regeneration :=
  { Regeneration.default with
    naturalBase := 0, placedBase := 0, perLevel := 0, maxJitter := 0, layerInterval := 0 }

/-- What an incendiary blast takes from the column, one place of which it leaves on fire, and what
    a second blast takes that reaches into the same places. -/
theorem explode_column :
    (column.explode "quarry" ⟨Pos.clamp 0 1 0, 1, 1, true⟩).1 = .ok
      { world := "quarry", origin := Pos.clamp 0 1 0, intensity := 1
        cells := [⟨Pos.clamp 0 0 0, Content.plain "stone", .natural⟩,
          ⟨Pos.clamp 0 1 0, ⟨"oak", (∅ : Properties).insert "axis" "y"⟩, .placed⟩] } ∧
    ((column.explode "quarry" ⟨Pos.clamp 0 1 0, 1, 1, true⟩).2.explode "quarry"
      ⟨Pos.clamp 0 0 0, 1, 1, false⟩).1 = .ok
      { world := "quarry", origin := Pos.clamp 0 0 0, intensity := 1
        cells := [⟨Pos.clamp 0 (-1) 0, Content.plain "bedrock", .natural⟩] } := by
  decide +kernel

/-- The column heals within six ticks of both blasts, the damage of one submitted and that of the
    other sent. -/
theorem blasted_heals_column : ∃ now new s, Scheduler.new hasty 7 = .ok new ∧
    Healing column new now s ∧ s.isIdle = true ∧ now.signals.size = 3 ∧
    ∀ name pos, now.contentAt? name pos = column.contentAt? name pos ∧
      now.provenanceAt name pos = column.provenanceAt name pos := by
  have hfirst : column.explode "quarry" ⟨Pos.clamp 0 1 0, 1, 1, true⟩ = (.ok _, _) :=
    Prod.ext explode_column.1 rfl
  have hsecond : (column.explode "quarry" ⟨Pos.clamp 0 1 0, 1, 1, true⟩).2.explode "quarry"
      ⟨Pos.clamp 0 0 0, 1, 1, false⟩ = (.ok _, _) := Prod.ext explode_column.2 rfl
  obtain ⟨new, hnew⟩ : ∃ new, Scheduler.new hasty 7 = .ok new := ⟨_, rfl⟩
  have hstart : Healing column new column new := .start
  cases hnew
  have hblasted := Healing.send (.submit hstart (DamageId.ofNat 1) (fun _ => by decide) hfirst
    (by decide)) (DamageId.ofNat 2) (fun h => absurd h Bool.false_ne_true) hsecond rfl
  have hrested := hblasted.rest (by decide +kernel) 6
  exact ⟨_, _, _, rfl, hrested, by decide +kernel, by decide +kernel,
    @blasted_heals column _ hasty 7 _ _ made_column loaded_column rfl rfl rfl hrested
      (by decide +kernel)⟩

end Mend
