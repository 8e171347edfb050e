import Mend.Proofs.Run.UntilIdle
import Mend.Proofs.Queue.Deadlines
import Mend.Proofs.Atlas.Contents

set_option autoImplicit false

/-! # The blasts of a scenario go off in salvos

Blasts that are cued for the same tick go off together, on the stage that they find. Such a salvo
takes the cues of its tick, in the order in which they are listed, from the front of the cues that
are left (`Scenario.Left`). Where the world of the scenario exists, none of its blasts fails: each
does damage and sends it under the next identifier of the supply (`Stage.Ready`). -/

namespace Mend

/-! ## Lists sorted by tick -/

section Sorted

variable {α : Type} {f : α → Tick} {xs ys : List α}

/-- In a sorted list what comes by a tick is what comes before it and then what comes on it. -/
theorem filter_lt_succ (hxs : xs.Pairwise (f · ≤ f ·)) {n : Nat} {tick : Tick}
    (htick : tick.val = n) : xs.filter (fun x => (f x).val < n + 1)
      = xs.filter (fun x => (f x).val < n) ++ xs.filter (f · = tick) := by
  induction xs with
  | nil => rfl
  | cons x xs ih =>
      rw [List.pairwise_cons] at hxs
      by_cases hlt : (f x).val < n
      · have hne : f x ≠ tick := fun heq => by
          rw [heq, htick] at hlt
          exact Nat.lt_irrefl _ hlt
        have hnext : (f x).val < n + 1 := Nat.lt_succ_of_lt hlt
        simp only [List.filter_cons, hnext, hlt, hne, ih hxs.2, decide_true, decide_false,
          if_true, Bool.false_eq_true, if_false, List.cons_append]
      · -- nothing comes before the tick
        have hnone : (x :: xs).filter (fun x => (f x).val < n) = [] := by
          refine List.filter_eq_nil_iff.2 fun y hy hbefore => hlt ?_
          have hle : f x ≤ f y := (List.mem_cons.1 hy).elim (fun heq => heq ▸ Capped.le_refl _)
            (hxs.1 y)
          exact Nat.lt_of_le_of_lt hle (of_decide_eq_true hbefore)
        rw [hnone, List.nil_append]
        refine List.filter_congr fun y hy => decide_eq_decide.2 ⟨fun hby => ?_, fun heq => ?_⟩
        · have hnot := List.filter_eq_nil_iff.1 hnone y hy
          refine Capped.ext ?_
          simp only [decide_eq_true_eq] at hnot
          omega
        · rw [heq, htick]
          exact Nat.lt_succ_self n

end Sorted

/-! ## The cues of a scenario -/

namespace Scenario

/-- The cues by tick, and those of one tick in the order in which they are listed. -/
def inOrder (s : Scenario) : List Cue := s.cues.mergeSort fun a b => a.tick ≤ b.tick

/-- The blasts that are cued for a tick, in the order in which they are listed. -/
def blastsAt (s : Scenario) (tick : Tick) : List Blast :=
  (s.cues.filter (·.tick = tick)).map Cue.blast

variable (s : Scenario)

theorem cue_le_trans (a b c : Cue) (hab : decide (a.tick ≤ b.tick) = true)
    (hbc : decide (b.tick ≤ c.tick) = true) : decide (a.tick ≤ c.tick) = true :=
  decide_eq_true (Capped.le_trans (of_decide_eq_true hab) (of_decide_eq_true hbc))

theorem cue_le_total (a b : Cue) :
    (decide (a.tick ≤ b.tick) || decide (b.tick ≤ a.tick)) = true := by
  simp only [Bool.or_eq_true, decide_eq_true_eq, Capped.le_def]
  omega

theorem inOrder_perm : s.inOrder.Perm s.cues := List.mergeSort_perm _ _

theorem inOrder_sorted : s.inOrder.Pairwise (·.tick ≤ ·.tick) :=
  (List.pairwise_mergeSort cue_le_trans cue_le_total s.cues).imp of_decide_eq_true

theorem filter_inOrder (tick : Tick) :
    s.inOrder.filter (·.tick = tick) = s.cues.filter (·.tick = tick) := by
  have hsame :
      (s.cues.filter (·.tick = tick)).Pairwise fun a b => decide (a.tick ≤ b.tick) = true :=
    List.Pairwise.imp_of_mem (fun ha hb _ => by
      rw [of_decide_eq_true (List.mem_filter.1 ha).2, of_decide_eq_true (List.mem_filter.1 hb).2]
      exact decide_eq_true (Capped.le_refl _)) (List.pairwise_of_forall fun _ _ => trivial)
  -- sorting keeps the cues of one tick in order
  have hsub := (List.sublist_mergeSort cue_le_trans cue_le_total hsame
    List.filter_sublist).filter (·.tick = tick)
  rw [List.filter_filter] at hsub
  simp only [Bool.and_self] at hsub
  exact (hsub.eq_of_length ((s.inOrder_perm.filter _).length_eq.symm)).symm

/-- What is on the agenda of a script are the cues from tick `n` on. -/
def Left (cues : Agenda Blast) (n : Nat) : Prop :=
  cues.entries = (s.inOrder.filter (n ≤ ·.tick.val)).map fun c => (c.tick, c.blast)

end Scenario

namespace Scenario

variable {s : Scenario}

/-- The cues of the next tick come first, and those of later ticks are left. -/
theorem Left.drain {cues : Agenda Blast} {n : Nat} (h : s.Left cues n) {tick : Tick}
    (htick : tick.val = n) :
    cues.due tick = s.blastsAt tick ∧ s.Left (cues.later tick) (n + 1) := by
  have hsorted : cues.entries.Pairwise (·.1 ≤ ·.1) := by
    rw [h]
    exact List.pairwise_map.2 (s.inOrder_sorted.sublist List.filter_sublist)
  obtain ⟨hdue, hlater⟩ := @Agenda.takeWhile_eq_filter _ tick _ hsorted
  constructor
  · rw [Agenda.due, hdue, h, blastsAt, ← filter_inOrder, List.filter_map, List.map_map,
      List.filter_filter]
    refine congrArg (List.map Cue.blast) (List.filter_congr fun c _ => ?_)
    simp only [Function.comp_apply, ← Bool.decide_and, decide_eq_decide, Capped.le_def, ← htick]
    exact ⟨fun hc => Capped.ext (Nat.le_antisymm hc.1 hc.2), fun hc => hc ▸ ⟨le_rfl, le_rfl⟩⟩
  · show cues.entries.dropWhile _ = _
    rw [hlater, h, List.filter_map, List.filter_filter]
    refine congrArg (List.map _) (List.filter_congr fun c _ => ?_)
    simp only [Function.comp_apply, ← Bool.decide_and, decide_eq_decide, Capped.lt_def, htick]
    omega

end Scenario

/-! ## Setting off blasts -/

namespace Script

/-- The damage that a blast does on a stage, under the identifier it is sent under. -/
def Stage.parcel? (s : Stage) (blast : Blast) : Option Parcel :=
  match (s.atlas.explode s.script.world blast).1 with
  | .ok damage => some ⟨s.script.ids s.script.given, damage⟩
  | .error _ => none

/-- The damage that blasts do, one after the other. -/
def Stage.parcels : Stage → List Blast → List Parcel
  | _, [] => []
  | s, blast :: rest => (s.parcel? blast).toList ++ (s.detonate blast).parcels rest

/-- A stage on which the script plays in a world that exists and which is open for the damage of
    its blasts, of which `n` have gone off; what they did has the first `n` of some identifiers. -/
structure Stage.Ready (world : WorldName) (ids : Nat → DamageId) (n : Nat) (s : Stage) : Prop where
  plays : s.script.world = world
  found : s.atlas.hasWorld world = true
  opened : s.funnel.closed = false
  supply : s.script.ids = ids
  next : s.script.given = n
  counted : s.script.blasts.val = min n 4294967295

namespace Stage.Ready

variable {world : WorldName} {ids : Nat → DamageId} {n : Nat} {s : Stage}

/-- A blast goes off, and sends the damage it does under the next identifier. -/
theorem detonate (h : s.Ready world ids n) (blast : Blast) :
    ∃ d, s.parcel? blast = some ⟨ids n, d⟩ ∧
      (s.detonate blast).Ready world ids (n + 1) ∧
      (s.detonate blast).funnel
        = { s.funnel with waiting := s.funnel.waiting ++ [⟨ids n, d⟩] } ∧
      (s.detonate blast).script.cues = s.script.cues := by
  have hfound : (s.atlas.explode s.script.world blast).2.hasWorld world = true :=
    Atlas.hasWorld_modifyWorld _ h.found
  obtain ⟨d, a, hd⟩ : ∃ d a, s.atlas.explode s.script.world blast = (.ok d, a) := by
    have hw := h.found
    rw [Atlas.hasWorld_eq, ← h.plays] at hw
    obtain ⟨w, hw⟩ := Option.isSome_iff_exists.1 hw
    rw [Atlas.explode, Atlas.modifyWorld, hw]
    exact ⟨_, _, rfl⟩
  have hsend : s.funnel.send (s.script.ids s.script.given) d
      = .ok { s.funnel with waiting := s.funnel.waiting ++ [⟨ids n, d⟩] } := by
    rw [Funnel.send, if_neg (by simp [h.opened]), h.supply, h.next]
  have hdetonate : s.detonate blast
      = ⟨{ s.script with given := s.script.given + 1, blasts := s.script.blasts + 1 }, a,
        { s.funnel with waiting := s.funnel.waiting ++ [⟨ids n, d⟩] }⟩ := by
    rw [Stage.detonate, hd]
    simp only [hsend]
  rw [hd] at hfound
  rw [hdetonate]
  refine ⟨d, by rw [Stage.parcel?, hd, h.supply, h.next],
    ⟨h.plays, hfound, h.opened, h.supply, congrArg (· + 1) h.next, ?_⟩, rfl, rfl⟩
  show min (s.script.blasts.val + 1) _ = _
  rw [h.counted]
  omega

/-- All of several blasts go off and send their damage, in order. -/
theorem foldl_detonate (h : s.Ready world ids n) (blasts : List Blast) :
    (blasts.foldl Stage.detonate s).Ready world ids (n + blasts.length) ∧
      (s.parcels blasts).map Parcel.id = (List.range' n blasts.length).map ids ∧
      (blasts.foldl Stage.detonate s).funnel
        = { s.funnel with waiting := s.funnel.waiting ++ s.parcels blasts } ∧
      (blasts.foldl Stage.detonate s).script.cues = s.script.cues := by
  induction blasts generalizing s n with
  | nil => exact ⟨h, rfl, by simp [Stage.parcels], rfl⟩
  | cons blast rest ih =>
      obtain ⟨d, hparcel, hready, hfunnel, hcues⟩ := h.detonate blast
      obtain ⟨hready', hids, hfunnel', hcues'⟩ := ih hready
      have hlength : n + 1 + rest.length = n + (blast :: rest).length := by
        rw [List.length_cons]
        omega
      refine ⟨hlength ▸ hready', ?_, ?_, hcues'.trans hcues⟩
      · rw [Stage.parcels, hparcel, Option.toList_some, List.singleton_append, List.map_cons, hids,
          List.length_cons, List.range'_succ, List.map_cons]
      · rw [List.foldl_cons, hfunnel', hfunnel, Stage.parcels, hparcel]
        simp

/-- Clearing fire changes nothing of this. -/
theorem cleanUp (h : s.Ready world ids n) (done : Completion) :
    (s.cleanUp done).Ready world ids n := by
  have hfound : (s.atlas.clearBox done.world done.hazard fireMaterial).2.hasWorld world = true :=
    Atlas.hasWorld_modifyWorld _ h.found
  unfold Stage.cleanUp
  split <;> next heq =>
    rw [heq] at hfound
    exact ⟨h.plays, hfound, h.opened, h.supply, h.next, h.counted⟩

theorem foldl_cleanUp (h : s.Ready world ids n) (done : List Completion) :
    (done.foldl Stage.cleanUp s).Ready world ids n := by
  induction done generalizing s with
  | nil => exact h
  | cons c rest ih => exact ih (h.cleanUp c)

end Stage.Ready

/-! ## Salvos -/

/-- The blasts that go off after a tick, or before the first tick, and the stage that they find. -/
structure Salvo where
  tick : Tick
  stage : Stage

namespace Salvo

/-- The blasts, in the order in which they go off. -/
def blasts (x : Salvo) : List Blast := x.stage.script.cues.due x.tick

/-- The blasts with their tick. -/
def cues (x : Salvo) : List Cue := x.blasts.map (Cue.mk x.tick)

/-- The stage with the blasts taken out of the script. -/
def aimed (x : Salvo) : Stage :=
  { x.stage with script := { x.stage.script with cues := x.stage.script.cues.later x.tick } }

/-- The damage that the blasts do. -/
def parcels (x : Salvo) : List Parcel := x.aimed.parcels x.blasts

/-- The stage once the blasts have gone off. -/
def left (x : Salvo) : Stage := x.stage.detonateDue x.tick

theorem length_cues (salvos : List Salvo) :
    (salvos.flatMap cues).length = (salvos.flatMap blasts).length := by
  simp [List.length_flatMap, cues]

theorem left_eq (x : Salvo) : x.left = x.blasts.foldl Stage.detonate x.aimed := rfl

variable {s : Scenario} {ids : Nat → DamageId} {x : Salvo} {n m : Nat}

/-- A salvo takes the cues of its tick, and all its blasts go off. -/
theorem goesOff (hleft : s.Left x.stage.script.cues n) (htick : x.tick.val = n)
    (hready : x.stage.Ready s.world ids m) : x.blasts = s.blastsAt x.tick ∧
      s.Left x.left.script.cues (n + 1) ∧ x.left.Ready s.world ids (m + x.blasts.length) ∧
      x.parcels.map Parcel.id = (List.range' m x.blasts.length).map ids ∧
      x.left.funnel
        = { x.stage.funnel with waiting := x.stage.funnel.waiting ++ x.parcels } := by
  obtain ⟨hdue, hlater⟩ := hleft.drain htick
  have haimed : x.aimed.Ready s.world ids m :=
    ⟨hready.plays, hready.found, hready.opened, hready.supply, hready.next, hready.counted⟩
  obtain ⟨hready', hids, hfunnel, hcues⟩ := haimed.foldl_detonate x.blasts
  rw [← left_eq] at hready' hfunnel hcues
  exact ⟨hdue, hcues ▸ hlater, hready', hids, hfunnel⟩

end Salvo

end Script

/-! ## Performing a scenario -/

/-- The salvos perform the scenario up to the tick of the last of them, with identifiers from the
    given supply. -/
structure Scenario.Performed (s : Scenario) (ids : Nat → DamageId) (salvos : List Script.Salvo) :
    Prop where
  /-- There is one before the first tick and one after each tick. -/
  numbered : salvos.map (·.tick.val) = List.range salvos.length
  /-- Each consists of the blasts that are cued for its tick, in the order in which they are
      listed. -/
  cued : ∀ x ∈ salvos, x.blasts = s.blastsAt x.tick
  /-- So together they are the front of the scenario, in the order of ticks, and nothing goes off
      twice. -/
  ordered : salvos.flatMap Script.Salvo.cues = s.inOrder.filter (·.tick.val < salvos.length)
  /-- Each blast does damage and sends it under the next identifier. -/
  named : (salvos.flatMap Script.Salvo.parcels).map Parcel.id
    = (List.range (salvos.flatMap Script.Salvo.blasts).length).map ids

namespace Scenario.Performed

open Script

variable {s : Scenario} {ids : Nat → DamageId} {salvos : List Salvo} {x : Salvo}

theorem nil : s.Performed ids [] :=
  ⟨rfl, fun _ hx => absurd hx List.not_mem_nil, by simp, rfl⟩

/-- One more salvo. -/
theorem concat (h : s.Performed ids salvos) (htick : x.tick.val = salvos.length)
    (hblasts : x.blasts = s.blastsAt x.tick) (hids : x.parcels.map Parcel.id
      = (List.range' (salvos.flatMap Salvo.blasts).length x.blasts.length).map ids) :
    s.Performed ids (salvos ++ [x]) where
  numbered := by
    rw [List.map_append, h.numbered, List.length_append, List.length_singleton, List.range_succ,
      List.map_singleton, htick]
  cued y hy := by
    rcases List.mem_append.1 hy with hy | hy
    · exact h.cued y hy
    · obtain rfl := List.mem_singleton.1 hy
      exact hblasts
  ordered := by
    have hcues : x.cues = s.inOrder.filter (·.tick = x.tick) := by
      rw [Salvo.cues, hblasts, blastsAt, filter_inOrder, List.map_map]
      refine (List.map_congr_left fun c hc => ?_).trans (List.map_id _)
      rw [← of_decide_eq_true (List.mem_filter.1 hc).2]
      rfl
    rw [List.flatMap_append, h.ordered, List.flatMap_singleton, hcues, List.length_append,
      List.length_singleton]
    exact (filter_lt_succ s.inOrder_sorted htick).symm
  named := by
    rw [List.flatMap_append, List.map_append, h.named, List.flatMap_singleton, hids,
      List.flatMap_append, List.flatMap_singleton, List.length_append, List.range_add,
      List.map_append, List.range'_eq_map_range]

/-- No more blasts go off than are cued. -/
theorem length_le (h : s.Performed ids salvos) :
    (salvos.flatMap Salvo.blasts).length ≤ s.cues.length := by
  rw [← Salvo.length_cues, h.ordered, ← s.inOrder_perm.length_eq]
  exact List.length_filter_le _ _

end Scenario.Performed

end Mend
