import Mend.Proofs.Atlas.Carving
import Mend.Proofs.Atlas.Painting
import Mend.Proofs.Healing
import Mend.Proofs.Restoring
import Mend.Proofs.Site

set_option autoImplicit false

/-! # Whether a restored cell counts as built

An atlas keeps apart from the cells where it was built. Blasts, clearing and restoring leave this
mark alone, so a cell that was built before a blast counts as built again once it is restored. Only
painting changes the mark of a position, also while the position waits for its restoration: then
the restored cell counts as what was painted last (`provenance_lost`). Where nothing was painted, or
nothing that counts otherwise, it counts as what the blast took (`provenance_kept`). -/

namespace Mend

/-! ## The mark of a position -/

namespace Atlas

variable {a : Atlas} {name : WorldName} {pos : Pos}

/-- A position keeps its provenance if the change of its world lets it. -/
theorem provenanceAt_modifyWorld {α : Type} {kind : Provenance}
    (h : a.provenanceAt name pos = kind) {other : WorldName}
    {f : World → Except AtlasError α × World}
    (hf : other = name → ∀ w : World, w.provenanceAt pos = kind →
      (f w).2.provenanceAt pos = kind) :
    (a.modifyWorld other f).2.provenanceAt name pos = kind := by
  rcases a.modifyWorld_cases other f with ⟨-, heq⟩ | ⟨w, hw, heq⟩ <;> rw [heq]
  · exact h
  · rw [provenanceAt_insert]
    split_ifs with hname
    · subst hname
      rw [provenanceAt, hw] at h
      exact hf rfl w h
    · exact h

theorem SameRules.provenanceAt {b : Atlas} (h : a.SameRules b) (name : WorldName) (pos : Pos) :
    b.provenanceAt name pos = a.provenanceAt name pos := by
  have hworld := h.worlds name
  rw [Atlas.provenanceAt, Atlas.provenanceAt]
  cases ha : a.world? name <;> cases hb : b.world? name <;> rw [ha, hb] at hworld
  · cases hworld
  · cases hworld
  · exact World.provenanceAt_congr (Prod.mk.inj (Option.some.inj hworld)).1 pos

/-- What a blast takes it takes as what it counts as. -/
theorem provenance_of_explode {blast : Blast} {d : Damage}
    (h : (a.explode name blast).1 = .ok d) {c : LostCell} (hc : c ∈ d.cells) :
    d.world = name ∧ c.provenance = a.provenanceAt name c.pos := by
  obtain ⟨w, lost, w', hw, hspec, rfl, -⟩ := explode_eq_ok (Prod.ext h rfl)
  refine ⟨rfl, ?_⟩
  rw [(hspec.taken c hc).2.2, provenanceAt, hw]

end Atlas

/-! ## What painting a position does to its mark -/

/-- The act may leave a position that counts as `kind` with another mark: it writes there what
    counts otherwise, or a write there is refused. -/
def Act.Disturbs (name : WorldName) (pos : Pos) (kind : Provenance) : Act → Prop
  | .setNatural n p content =>
      (n, p) = (name, pos) ∧ (content.material = "" ∨ kind ≠ .natural)
  | .place n p content =>
      (n, p) = (name, pos) ∧
        (content.material = "" ∨ kind ≠ if content.material = air then .natural else .placed)
  | .fillBall n center radius material =>
      n = name ∧ pos ∈ center.ball radius ∧ (material = "" ∨ kind ≠ .natural)
  | _ => False

namespace Site

variable {x : Site} {name : WorldName} {pos : Pos} {kind : Provenance}

/-- What does not disturb a position leaves it its provenance. -/
theorem provenanceAt_after {act : Act} (h : x.atlas.provenanceAt name pos = kind)
    (hquiet : ¬ act.Disturbs name pos kind) :
    (x.after act).atlas.provenanceAt name pos = kind := by
  cases act with
  | submit p => exact h
  | send p => exact h
  | setSpeed speed => exact h
  | tick listener =>
      rw [after, atlasAfter]
      split
      · next r hr =>
          obtain ⟨clock, -, -, -, -, -, hworld, -⟩ := Scheduler.tick_eq_ok hr
          replace hworld : r.world = x.atlas.fireAll (x.scheduler.prepared clock).dueTasks := hworld
          rw [hworld, (x.atlas.sameRules_fireAll _).provenanceAt]
          exact h
      · exact h
  | setNatural n p content =>
      refine Atlas.provenanceAt_modifyWorld h fun hn w hw => ?_
      rw [World.provenanceAt_setNatural]
      split_ifs with hp
      · subst hn hp
        by_contra hne
        exact hquiet ⟨rfl, Or.inr (Ne.symm hne)⟩
      · exact hw
  | place n p content =>
      refine Atlas.provenanceAt_modifyWorld h fun hn w hw => ?_
      rw [World.provenanceAt_place]
      by_cases hp : p = pos
      · subst hn hp
        rw [if_pos rfl]
        by_contra hne
        exact hquiet ⟨rfl, Or.inr (Ne.symm hne)⟩
      · rwa [if_neg hp]
  | fillBall n center radius material =>
      have hfilled : (x.atlas.modifyWorld n fun w =>
          w.fill (Content.plain material) (center.ball radius)).2.provenanceAt name pos = kind := by
        refine Atlas.provenanceAt_modifyWorld h fun hn w hw => ?_
        rcases w.provenanceAt_fill (Content.plain material) (center.ball radius) pos with
          heq | ⟨heq, hmem⟩
        · exact heq.trans hw
        · rw [heq]
          by_contra hne
          exact hquiet ⟨hn, hmem, Or.inr (Ne.symm hne)⟩
      show (x.atlas.fillBall n center radius material).2.provenanceAt name pos = kind
      rw [Atlas.fillBall_eq]
      exact hfilled
  | clearBox n box material =>
      refine Atlas.provenanceAt_modifyWorld h fun _ w hw => ?_
      exact hw
  | explode n blast =>
      refine Atlas.provenanceAt_modifyWorld h fun _ w hw => ?_
      exact (World.provenanceAt_congr (w.explode_spec x.atlas.vacant blast).placed pos).trans hw

/-- A position keeps its provenance as long as nothing disturbs it. -/
theorem provenanceAt_run {acts : List Act} (h : x.atlas.provenanceAt name pos = kind)
    (hquiet : ∀ act ∈ acts, ¬ act.Disturbs name pos kind) :
    (x.run acts).atlas.provenanceAt name pos = kind := by
  induction acts generalizing x with
  | nil => exact h
  | cons act rest ih =>
      rw [List.forall_mem_cons] at hquiet
      exact ih (provenanceAt_after h hquiet.1) hquiet.2

/-- What a blast takes counts, as long as nothing disturbs its position, as what it was taken as. -/
theorem provenanceAt_of_explode {before between : List Act} {blast : Blast} {d : Damage}
    (h : ((x.run before).atlas.explode name blast).1 = .ok d) {c : LostCell} (hc : c ∈ d.cells)
    (hquiet : ∀ act ∈ between, ¬ act.Disturbs name c.pos c.provenance) :
    (x.run (before ++ .explode name blast :: between)).atlas.provenanceAt name c.pos
      = c.provenance := by
  rw [run_append, run_cons]
  refine provenanceAt_run (provenanceAt_after ?_ fun hnot => hnot) hquiet
  exact (Atlas.provenance_of_explode h hc).2.symm

end Site

/-! ## Painting while a position waits -/

/-- Planks are built, blasted away, and their damage submitted. Before they are restored somebody
    clears their position, as terrain is written: they are restored, and count as natural. -/
theorem provenance_lost : ∃ s d r t, Scheduler.new hasty 7 = .ok s ∧
    let x : Site := ⟨(Atlas.empty []).withWorld "quarry", s⟩
    let pos := Pos.clamp 0 0 0
    let before : List Act := [.place "quarry" pos (Content.plain "planks")]
    let acts : List Act := before ++ [.explode "quarry" ⟨pos, 0, 1, false⟩,
      .submit ⟨DamageId.ofNat 1, d⟩, .setNatural "quarry" pos (Content.plain air), .tick ()]
    ((x.run before).atlas.explode "quarry" ⟨pos, 0, 1, false⟩).1 = .ok d ∧
      (x.run acts).scheduler.tick (x.run acts).atlas () = .ok r ∧
      ((x.run acts).scheduler.firedOn (.tick (x.run acts).atlas ())).map
        (fun y => (y.task, y.outcome)) = [(t, .restored)] ∧
      t.cell = ("quarry", pos) ∧ t.lostCell ∈ d.cells ∧ t.provenance = .placed ∧
      r.world.provenanceAt "quarry" pos = .natural := by
  exact ⟨_, ⟨"quarry", Pos.clamp 0 0 0, 1,
      [⟨Pos.clamp 0 0 0, Content.plain "planks", .placed⟩]⟩, _,
    ⟨DamageId.ofNat 1, "quarry", Pos.clamp 0 0 0, Content.plain "planks", .placed, 0⟩, rfl,
    by decide +kernel, rfl, by decide +kernel, by decide, by decide, rfl, by decide +kernel⟩

/-! ## Every tick -/

namespace Site

/-- From now on the position counts as `kind` until something disturbs it, and so do blasts take
    it. -/
def CountsAs (x : Site) (name : WorldName) (pos : Pos) (kind : Provenance) : Prop :=
  ∀ acts : List Act, (∀ act ∈ acts, ¬ act.Disturbs name pos kind) →
    (x.run acts).atlas.provenanceAt name pos = kind ∧
      ∀ (blast : Blast) (d : Damage), ((x.run acts).atlas.explode name blast).1 = .ok d →
        ∀ c ∈ d.cells, c.pos = pos → c.provenance = kind

theorem countsAs {x : Site} {name : WorldName} {pos : Pos} {kind : Provenance}
    (h : x.atlas.provenanceAt name pos = kind) : x.CountsAs name pos kind := by
  intro acts hquiet
  have hkept := provenanceAt_run h hquiet
  refine ⟨hkept, fun blast d hd c hc hpos => ?_⟩
  rw [(Atlas.provenance_of_explode hd hc).2, hpos, hkept]

/-- What a tick that leaves `r` does to the marks, when it runs after the acts on the site `x`. -/
structure KeepsMarks (x : Site) (acts : List Act) {η : Type} [Listener η] (listener : η)
    (r : Scheduler.Ticked Atlas η) : Prop where
  /-- The tick does to the atlas what its firings do, one after the other. -/
  fires : r.world = (x.run acts).atlas.fireAll (((x.run acts).scheduler.firedOn
    (.tick (x.run acts).atlas listener)).map Shot.task)
  /-- After each of them every position counts as it did before the tick. -/
  leaves : ∀ done left : List Shot,
    (x.run acts).scheduler.firedOn (.tick (x.run acts).atlas listener) = done ++ left →
      ∀ name pos, ((x.run acts).atlas.fireAll (done.map Shot.task)).provenanceAt name pos
        = (x.run acts).atlas.provenanceAt name pos
  /-- The cell of a task that fires was listed by damage that was handed in. Where a blast had
      taken that damage, and nothing has disturbed the position since, the position counts right
      after the firing, and from the tick on, as what the blast took it as. -/
  recalls : ∀ done shot left,
    (x.run acts).scheduler.firedOn (.tick (x.run acts).atlas listener) = done ++ shot :: left →
      ∃ p ∈ acts.filterMap Act.parcel?, p.id = shot.task.damage ∧
        p.damage.world = shot.task.world ∧ shot.task.lostCell ∈ p.damage.cells ∧
        ∀ before between name blast, acts = before ++ .explode name blast :: between →
          ((x.run before).atlas.explode name blast).1 = .ok p.damage →
          (∀ act ∈ between,
            ¬ act.Disturbs shot.task.world shot.task.pos shot.task.provenance) →
          ((x.run acts).atlas.fireAll ((done ++ [shot]).map Shot.task)).provenanceAt
              shot.task.world shot.task.pos = shot.task.provenance ∧
            (Site.mk r.world r.scheduler).CountsAs shot.task.world shot.task.pos
              shot.task.provenance

end Site

section Reachable

variable {settings : Regeneration} {seed : Tick} {s : Scheduler}

/-- What fires on a tick was listed by damage that was handed in before it. -/
theorem Scheduler.listed_of_firedOn (fresh : Scheduler.new settings seed = .ok s)
    {deeds : List Deed} {ω η : Type} [Ground ω] [Listener η] {world : ω} {listener : η} {y : Shot}
    (hy : y ∈ (s.run deeds).firedOn (.tick world listener)) :
    ∃ p ∈ handedIn deeds, p.id = y.task.damage ∧ p.damage.world = y.task.world ∧
      y.task.lostCell ∈ p.damage.cells := by
  have hfired : y ∈ s.fired (deeds ++ [.tick world listener]) := by
    rw [fired, gather_concat]
    exact List.mem_append_right _ hy
  have hmem := (Scheduler.planned_run fresh _).fired_perm.mem_iff.1
    (List.mem_map_of_mem (f := fun x => (x.tick, x.task)) hfired)
  obtain ⟨a, ha, heq⟩ := List.mem_map.1 hmem
  obtain ⟨i, g, hzip, hadmits, hg⟩ :=
    Scheduler.admitted_of_appointed fresh (List.mem_filter.1 ha).1
  have hsame : a.task = y.task := congrArg Prod.snd heq
  rw [hsame] at hg
  have hparcel := handedIn_of_mem_intakes fresh (List.of_mem_zip hzip).1
  rw [handedIn_append] at hparcel
  refine ⟨i.parcel, ?_, (hadmits.owner _ hg).1.symm, (hadmits.owner _ hg).2.symm,
    hadmits.listed.subset (List.mem_map_of_mem hg)⟩
  exact (List.mem_append.1 hparcel).resolve_right List.not_mem_nil

/-- **Restoring leaves the mark of a cell alone.** At any site with a fresh scheduler, after any
    acts, no firing of a tick changes what a position counts as. So a cell that a blast took counts,
    once it is restored, as what it was taken as, provided that since the blast its position was not
    painted with what counts otherwise, and a later blast takes it as that again. -/
theorem provenance_kept (fresh : Scheduler.new settings seed = .ok s) (atlas : Atlas)
    (acts : List Act) {η : Type} [Listener η] {listener : η} {r : Scheduler.Ticked Atlas η}
    (h : ((Site.mk atlas s).run acts).scheduler.tick ((Site.mk atlas s).run acts).atlas listener
      = .ok r) :
    (Site.mk atlas s).KeepsMarks acts listener r := by
  obtain ⟨clock, hclock, -, -, -, -, hworld, -⟩ := Scheduler.tick_eq_ok h
  replace hworld : r.world = ((Site.mk atlas s).run acts).atlas.fireAll
    (((Site.mk atlas s).run acts).scheduler.prepared clock).dueTasks := hworld
  have hfired : (((Site.mk atlas s).run acts).scheduler.firedOn
      (.tick ((Site.mk atlas s).run acts).atlas listener)).map Shot.task
      = (((Site.mk atlas s).run acts).scheduler.prepared clock).dueTasks := by
    rw [Scheduler.firedOn_tick hclock]
    exact Scheduler.map_task_shots _ _ _
  refine ⟨by rw [hworld, hfired], fun done left _ name pos => ?_, fun done shot left hsplit => ?_⟩
  · exact (Atlas.sameRules_fireAll _ _).provenanceAt name pos
  · have hmem : shot ∈ ((Site.mk atlas s).run acts).scheduler.firedOn
        (.tick ((Site.mk atlas s).run acts).atlas listener) := by simp [hsplit]
    rw [Site.scheduler_run] at hmem
    obtain ⟨p, hp, hid, hname, hlisted⟩ := Scheduler.listed_of_firedOn fresh hmem
    rw [Site.handedIn_deeds] at hp
    refine ⟨p, hp, hid, hname, hlisted, fun before between name blast hacts hblast hquiet => ?_⟩
    obtain ⟨rfl, -⟩ := Atlas.provenance_of_explode hblast hlisted
    have hkept : ((Site.mk atlas s).run acts).atlas.provenanceAt shot.task.world shot.task.pos
        = shot.task.provenance := by
      rw [hacts, ← hname]
      exact Site.provenanceAt_of_explode hblast hlisted (hname ▸ hquiet)
    refine ⟨((Atlas.sameRules_fireAll _ _).provenanceAt _ _).trans hkept, Site.countsAs ?_⟩
    rw [hworld]
    exact ((Atlas.sameRules_fireAll _ _).provenanceAt _ _).trans hkept

/-- Planks are built, blasted away and, before they are restored, walled in with stone. They are
    restored as something built, and a second blast takes them as that again. -/
theorem provenance_kept_planks : ∃ s d r, Scheduler.new hasty 7 = .ok s ∧
    let x : Site := ⟨(Atlas.empty []).withWorld "quarry", s⟩
    let pos := Pos.clamp 0 0 0
    let blast : Blast := ⟨pos, 0, 1, false⟩
    let before : List Act := [.place "quarry" pos (Content.plain "planks")]
    let between : List Act := [.submit ⟨DamageId.ofNat 1, d⟩,
      .setNatural "quarry" (Pos.clamp 1 0 0) (Content.plain "stone"), .tick ()]
    let acts : List Act := before ++ .explode "quarry" blast :: between
    ((x.run before).atlas.explode "quarry" blast).1 = .ok d ∧
      (∀ act ∈ between, ¬ act.Disturbs "quarry" pos .placed) ∧
      (x.run acts).scheduler.tick (x.run acts).atlas () = .ok r ∧ x.KeepsMarks acts () r ∧
      r.report.tally = ⟨1, 0, 0⟩ ∧ r.world.provenanceAt "quarry" pos = .placed ∧
      (r.world.explode "quarry" blast).1 = .ok d := by
  obtain ⟨s, hs⟩ : ∃ s, Scheduler.new hasty 7 = .ok s := ⟨_, rfl⟩
  cases hs
  have hkept := @provenance_kept hasty 7 _ rfl ((Atlas.empty []).withWorld "quarry")
    (.place "quarry" (Pos.clamp 0 0 0) (Content.plain "planks") ::
      .explode "quarry" ⟨Pos.clamp 0 0 0, 0, 1, false⟩ ::
      [.submit ⟨DamageId.ofNat 1, "quarry", Pos.clamp 0 0 0, 1,
          [⟨Pos.clamp 0 0 0, Content.plain "planks", .placed⟩]⟩,
        .setNatural "quarry" (Pos.clamp 1 0 0) (Content.plain "stone"), .tick ()])
    Unit _ () _ rfl
  have hother : Pos.clamp 1 0 0 ≠ Pos.clamp 0 0 0 := by decide
  exact ⟨_, _, _, rfl, by decide +kernel, by simp [Act.Disturbs, hother], rfl, hkept,
    by decide +kernel, by decide +kernel, by decide +kernel⟩

end Reachable

end Mend
