import Mend.Atlas.Paint
import Mend.Proofs.Scheduler.Bookkeeping

set_option autoImplicit false

/-! # Accepted damage is completed once, when its last cell has come out

The records of a run say which damage was taken in and what each firing did. `Intake.Accounted`
relates the two for one accepted damage: its tasks fired or are still underway, the listener is
told of it right after the last of them has fired and at no other time, and it is told how they
came out. Taking in other damage, firing a task of other damage and firing a task of its own keep
this, so it holds at the end of every run (`completed_once`). -/

namespace Mend

/-- The firings of the tasks of some damage. -/
def shotsOf (id : DamageId) (xs : List Shot) : List Shot := xs.filter (·.task.damage = id)

/-- A completion reports on damage: it says what the damage was taken in with, on which tick it
    was completed, and how many of its cells came out in each way. -/
structure Completion.Reports (c : Completion) (i : Intake) (xs : List Shot) (now : Tick) :
    Prop where
  damage : c.damage = i.parcel.id
  world : c.world = i.parcel.damage.world
  origin : c.origin = i.parcel.damage.origin
  intensity : c.intensity = i.parcel.damage.intensity
  submitted : c.submitted = i.tick
  completed : c.completed = now
  counts : ∀ o, (c.tally.count o).val = (xs.map Shot.outcome).count o
  cells : c.cells.val = xs.length

/-- The tasks are of the damage, for different cells that it lists. -/
structure Intake.Owns (i : Intake) (own : List Task) : Prop where
  damage : ∀ t ∈ own, t.damage = i.parcel.id ∧ t.world = i.parcel.damage.world
  distinct : (own.map Task.cell).Nodup
  listed : (own.map fun t => (t.pos, t.content)).Sublist
    (i.parcel.damage.cells.map fun c => (c.pos, c.content))

/-- What became of damage taken in with `n` cells after some firings, while some tasks are
    underway. -/
structure Intake.Accounted (i : Intake) (n : Nat) (xs : List Shot) (live : List Task) :
    Prop where
  /-- It has `n` tasks, and each fired once or is still underway. -/
  tasks : ∃ own, i.Owns own ∧ own.length = n ∧
    ((shotsOf i.parcel.id xs).map Shot.task ++ live.filter (·.damage = i.parcel.id)).Perm own
  /-- The listener was told of it once if all of them have fired, and never before. -/
  once : (completionsOf xs).countP (·.damage = i.parcel.id)
    = if (shotsOf i.parcel.id xs).length = n then 1 else 0
  /-- It is told right after the last of them has fired, and how they came out. -/
  told : ∀ before x, before ++ [x] <+: xs → x.task.damage = i.parcel.id →
    if (shotsOf i.parcel.id before).length + 1 = n then
      ∃ c, x.completion = some c ∧ c.Reports i (shotsOf i.parcel.id (before ++ [x])) x.tick
    else x.completion = none

/-! ## The firings of one damage -/

section Shots

variable {id : DamageId} {xs : List Shot} {x : Shot}

theorem shotsOf_concat_own (h : x.task.damage = id) :
    shotsOf id (xs ++ [x]) = shotsOf id xs ++ [x] := by
  simp [shotsOf, List.filter_append, h]

theorem shotsOf_concat_other (h : x.task.damage ≠ id) :
    shotsOf id (xs ++ [x]) = shotsOf id xs := by
  simp [shotsOf, List.filter_append, h]

theorem completionsOf_concat :
    completionsOf (xs ++ [x]) = completionsOf xs ++ x.completion.toList := by
  rw [completionsOf, List.filterMap_append, completionsOf]
  cases h : x.completion <;> simp [h]

/-- Damage is not told of where no firing tells of it. -/
theorem countP_completionsOf_eq_zero
    (h : ∀ x ∈ xs, ∀ c, x.completion = some c → c.damage ≠ id) :
    (completionsOf xs).countP (·.damage = id) = 0 := by
  refine List.countP_eq_zero.2 fun c hc => ?_
  obtain ⟨x, hx, hxc⟩ := List.mem_filterMap.1 hc
  simpa using h x hx c hxc

end Shots

/-! ## The record of damage in progress -/

/-- The record of damage of which some tasks have fired. -/
def Intake.record (i : Intake) (remaining : Count) (xs : List Shot) : Record :=
  { damage := i.parcel.id, world := i.parcel.damage.world, origin := i.parcel.damage.origin
    intensity := i.parcel.damage.intensity, remaining
    tally := (xs.map Shot.outcome).foldl Tally.record Tally.zero, submitted := i.tick }

theorem Intake.resolve_record (i : Intake) (remaining : Count) (xs : List Shot) (x : Shot) :
    (i.record remaining xs).resolve x.outcome = i.record (remaining - 1) (xs ++ [x]) := by
  simp only [record, Record.resolve, List.map_append, List.foldl_append]
  rfl

/-- The completion for a record reports on its damage, as long as its cells can be counted. -/
theorem Intake.reports_completion (i : Intake) (remaining : Count) {xs : List Shot}
    (h : xs.length ≤ 4294967295) (s : Scheduler) :
    (s.completion (i.record remaining xs)).Reports i xs s.clock.now where
  damage := rfl
  world := rfl
  origin := rfl
  intensity := rfl
  submitted := rfl
  completed := rfl
  counts := Tally.val_count_of_length_le (by rwa [List.length_map])
  cells := by
    show (List.foldl Tally.record Tally.zero (xs.map Shot.outcome)).total.val = _
    rw [Tally.val_total_foldl_record, List.length_map]
    simp only [Tally.zero, Tally.total, Capped.val_add, Capped.val_ofNat]
    omega

/-! ## What each step does to the account of one damage -/

namespace Intake.Accounted

variable {i : Intake} {n : Nat} {xs : List Shot} {live : List Task}

theorem length_eq (h : i.Accounted n xs live) :
    (shotsOf i.parcel.id xs).length + live.countP (·.damage = i.parcel.id) = n := by
  obtain ⟨own, -, hlength, hperm⟩ := h.tasks
  have heq := hperm.length_eq
  rw [List.length_append, List.length_map, ← List.countP_eq_length_filter] at heq
  exact heq.trans hlength

theorem perm {live' : List Task} (h : i.Accounted n xs live) (hperm : live.Perm live') :
    i.Accounted n xs live' where
  tasks := by
    obtain ⟨own, howns, hlength, hown⟩ := h.tasks
    exact ⟨own, howns, hlength, ((hperm.symm.filter _).append_left _).trans hown⟩
  once := h.once
  told := h.told

/-- Damage none of whose tasks has fired. -/
theorem start (howns : i.Owns live) (hne : live ≠ []) {others : List Task}
    (hothers : ∀ t ∈ others, t.damage ≠ i.parcel.id)
    (hxs : ∀ x ∈ xs, x.task.damage ≠ i.parcel.id)
    (hcompletions : ∀ x ∈ xs, ∀ c, x.completion = some c → c.damage = x.task.damage) :
    i.Accounted live.length xs (others ++ live) := by
  have hshots : shotsOf i.parcel.id xs = [] := by
    simpa [shotsOf, List.filter_eq_nil_iff] using hxs
  refine ⟨⟨live, howns, rfl, ?_⟩, ?_, ?_⟩
  · have hnone : others.filter (·.damage = i.parcel.id) = [] := by
      simpa [List.filter_eq_nil_iff] using hothers
    have hall : live.filter (·.damage = i.parcel.id) = live := by
      simpa [List.filter_eq_self] using fun t ht => (howns.damage t ht).1
    rw [hshots, List.filter_append, hnone, hall]
    exact List.Perm.refl _
  · have hpos := List.length_pos_iff.2 hne
    rw [hshots, if_neg (by rw [List.length_nil]; omega)]
    exact countP_completionsOf_eq_zero fun x hx c hc => hcompletions x hx c hc ▸ hxs x hx
  · intro before x hbefore hid
    have hx : x ∈ xs := hbefore.subset (List.mem_append_right _ List.mem_cons_self)
    exact absurd hid (hxs x hx)

/-- Taking in other damage. -/
theorem extend (h : i.Accounted n xs live) {new : List Task}
    (hnew : ∀ t ∈ new, t.damage ≠ i.parcel.id) : i.Accounted n xs (live ++ new) where
  tasks := by
    have hnone : new.filter (·.damage = i.parcel.id) = [] := by
      simpa [List.filter_eq_nil_iff] using hnew
    rw [List.filter_append, hnone, List.append_nil]
    exact h.tasks
  once := h.once
  told := h.told

variable {t : Task} {x : Shot}

/-- Firing a task of other damage. -/
theorem fire_other (h : i.Accounted n xs (t :: live)) (hx : x.task = t)
    (hne : t.damage ≠ i.parcel.id)
    (hcompletion : ∀ c, x.completion = some c → c.damage = t.damage) :
    i.Accounted n (xs ++ [x]) live := by
  subst hx
  constructor
  · obtain ⟨own, howns, hlength, hown⟩ := h.tasks
    refine ⟨own, howns, hlength, ?_⟩
    rw [List.filter_cons_of_neg (by simpa using hne)] at hown
    rwa [shotsOf_concat_other hne]
  · have hnone : x.completion.toList.countP (·.damage = i.parcel.id) = 0 := by
      refine List.countP_eq_zero.2 fun c hc => ?_
      rw [decide_eq_true_iff, hcompletion c (Option.mem_toList.1 hc)]
      exact hne
    rw [completionsOf_concat, List.countP_append, hnone, shotsOf_concat_other hne]
    exact h.once
  · intro before y hbefore hid
    rcases List.prefix_concat_iff.1 hbefore with heq | hbefore
    · obtain ⟨-, hy⟩ := List.append_inj' heq rfl
      cases hy
      exact absurd hid hne
    · exact h.told before y hbefore hid

/-- Firing a task of its own. -/
theorem fire_own (h : i.Accounted n xs (t :: live)) (hx : x.task = t)
    (hid : t.damage = i.parcel.id)
    (hcompletion : if live.countP (·.damage = i.parcel.id) = 0 then
        ∃ c, x.completion = some c ∧ c.Reports i (shotsOf i.parcel.id (xs ++ [x])) x.tick
      else x.completion = none) :
    i.Accounted n (xs ++ [x]) live := by
  subst hx
  -- the listener is told exactly if this was the last of the tasks
  have hlength := h.length_eq
  rw [List.countP_cons_of_pos (by simpa using hid)] at hlength
  have hlast : live.countP (·.damage = i.parcel.id) = 0
      ↔ (shotsOf i.parcel.id xs).length + 1 = n := by omega
  constructor
  · obtain ⟨own, howns, hown_length, hown⟩ := h.tasks
    refine ⟨own, howns, hown_length, ?_⟩
    rw [List.filter_cons_of_pos (by simpa using hid)] at hown
    rwa [shotsOf_concat_own hid, List.map_append, List.append_assoc]
  · have honce := h.once
    rw [if_neg (by omega)] at honce
    rw [completionsOf_concat, List.countP_append, honce, shotsOf_concat_own hid,
      List.length_append, List.length_singleton]
    by_cases hzero : live.countP (·.damage = i.parcel.id) = 0
    · rw [if_pos hzero] at hcompletion
      obtain ⟨c, hc, hreports⟩ := hcompletion
      rw [if_pos (hlast.1 hzero), hc]
      simp [hreports.damage]
    · rw [if_neg hzero] at hcompletion
      rw [if_neg (fun e => hzero (hlast.2 e)), hcompletion]
      rfl
  · intro before y hbefore hy
    rcases List.prefix_concat_iff.1 hbefore with heq | hbefore
    · obtain ⟨rfl, hxy⟩ := List.append_inj' heq rfl
      cases hxy
      rwa [if_congr hlast rfl rfl] at hcompletion
    · exact h.told before y hbefore hy

end Intake.Accounted

/-! ## The account of all damage in a run -/

/-- The tasks that taking in damage adds are of the damage, for different cells that it lists. -/
theorem Scheduler.owns_newTasks (s : Scheduler) (p : Parcel) (verdict : Verdict)
    (hdistinct : ((s.newTasks p.id p.damage).map Task.cell).Nodup) :
    Intake.Owns ⟨p, s.clock.now, verdict⟩ (s.newTasks p.id p.damage) := by
  by_cases hoff : s.pacing.isDisabled = true
  · rw [s.newTasks_of_disabled _ _ hoff]
    exact ⟨fun t ht => absurd ht List.not_mem_nil, List.nodup_nil, List.nil_sublist _⟩
  · have hon : s.pacing.isDisabled = false := Bool.eq_false_iff.2 hoff
    refine ⟨fun t ht => ⟨s.damage_of_mem_newTasks _ _ ht, ?_⟩, hdistinct, ?_⟩
    · have hworlds := s.map_newTasks p.id p.damage (fun w _ _ => w) hon
      have hmem : t.world ∈ (s.newTasks p.id p.damage).map Task.world := List.mem_map_of_mem ht
      rw [hworlds] at hmem
      obtain ⟨_, -, hworld⟩ := List.mem_map.1 hmem
      exact hworld.symm
    · rw [s.map_newTasks p.id p.damage (fun _ a c => (a, c)) hon]
      exact (Sifted.taken_sublist _ _ _ _).map _

/-- Firing a task brings about the completion for its record, if no other task of the damage is
    underway. -/
theorem Scheduler.settle_fst (s : Scheduler) {t : Task} {live : List Task}
    (h : s.ledger.Counts (t :: live)) (o : Outcome) :
    ∃ r, s.ledger.records[t.damage]? = some r ∧
      (s.settle t o).1 = if live.countP (·.damage = t.damage) = 0
        then some (s.completion (r.resolve o)) else none := by
  obtain ⟨r, hr, hremaining⟩ := h.exists_record
  have hleft : (r.resolve o).remaining.val = live.countP (·.damage = t.damage) := by
    rw [Ledger.val_remaining_resolve]
    omega
  refine ⟨r, hr, ?_⟩
  show (s.ledger.resolve t.damage o).1.map s.completion = _
  rw [Ledger.resolve_fst hr, hleft]
  split <;> rfl

/-- The books and the records of a run agree: every firing and every task underway is of accepted
    damage, all accepted damage is accounted for, and its record says what has come of it. -/
structure Tracked (is : List Intake) (xs : List Shot) (live : List Task) (s : Scheduler) :
    Prop where
  pending : s.pending.Holds (live.map Task.cell)
  counts : s.ledger.Counts live
  distinct : (is.map (·.parcel.id)).Nodup
  accepted : ∀ t ∈ xs.map Shot.task ++ live,
    ∃ i ∈ is, i.parcel.id = t.damage ∧ ∃ a, i.verdict = .accepted a
  completions : ∀ x ∈ xs, ∀ c, x.completion = some c → c.damage = x.task.damage
  accounted : ∀ i ∈ is, ∀ a, i.verdict = .accepted a → i.Accounted a.cells.val xs live
  recorded : ∀ i ∈ is, ∀ a, i.verdict = .accepted a →
    ∀ r, s.ledger.records[i.parcel.id]? = some r →
      r = i.record r.remaining (shotsOf i.parcel.id xs)

namespace Tracked

variable {is : List Intake} {xs : List Shot} {t : Task} {live : List Task} {s : Scheduler}

/-- Nothing has fired and nothing is underway of damage that was not taken in. -/
theorem damage_ne (h : Tracked is xs live s) {id : DamageId}
    (hid : id ∉ is.map (·.parcel.id)) (ht : t ∈ xs.map Shot.task ++ live) : t.damage ≠ id := by
  obtain ⟨i, hi, hdamage, -⟩ := h.accepted t ht
  intro heq
  exact hid (List.mem_map.2 ⟨i, hi, hdamage.trans heq⟩)

theorem nodup_concat (h : Tracked is xs live s) {p : Parcel} (hp : NewParcel is p) (tick : Tick)
    (verdict : Verdict) : ((is ++ [Intake.mk p tick verdict]).map (·.parcel.id)).Nodup := by
  rw [List.map_append]
  refine List.Nodup.append h.distinct (List.nodup_singleton _) fun id hid hnew => ?_
  cases List.mem_singleton.1 hnew
  exact hp.1 hid

/-- Discarding a parcel. Nothing is asked of the new entry, which is not accepted. -/
theorem discard (h : Tracked is xs live s) {p : Parcel} (hp : NewParcel is p) (tick : Tick)
    (id : DamageId) (reason : DiscardReason) :
    Tracked (is ++ [⟨p, tick, .discarded id reason⟩]) xs live s := by
  have hold : ∀ i ∈ is ++ [⟨p, tick, .discarded id reason⟩], ∀ a,
      i.verdict = .accepted a → i ∈ is := by
    intro i hi a ha
    rcases List.mem_append.1 hi with hi | hi
    · exact hi
    · rw [List.mem_singleton.1 hi] at ha
      cases ha
  refine ⟨h.pending, h.counts, h.nodup_concat hp tick _, fun t ht => ?_, h.completions, ?_, ?_⟩
  · obtain ⟨i, hi, hrest⟩ := h.accepted t ht
    exact ⟨i, List.mem_append_left _ hi, hrest⟩
  · intro i hi a ha
    exact h.accounted i (hold i hi a ha) a ha
  · intro i hi a ha
    exact h.recorded i (hold i hi a ha) a ha

/-- Accepting a parcel, once its tasks are pending and counted and its record is open. -/
theorem enter (h : Tracked is xs live s) {p : Parcel} (hp : NewParcel is p) {a : Acceptance}
    {s' : Scheduler} {new : List Task} (hpending : s'.pending.Holds ((live ++ new).map Task.cell))
    (hcounts : s'.ledger.Counts (live ++ new)) (hcells : a.cells.val = new.length)
    (howns : Intake.Owns ⟨p, s.clock.now, .accepted a⟩ new) (hne : new ≠ [])
    (hledger : ∀ k, s'.ledger.records[k]?
      = if p.id = k then some (s.openRecord p.id p.damage new.length) else s.ledger.records[k]?) :
    Tracked (is ++ [⟨p, s.clock.now, .accepted a⟩]) xs (live ++ new) s' := by
  have hold : ∀ i ∈ is, i.parcel.id ≠ p.id :=
    fun i hi heq => hp.1 (List.mem_map.2 ⟨i, hi, heq⟩)
  have hlive : ∀ t ∈ live, t.damage ≠ p.id :=
    fun t ht => h.damage_ne hp.1 (List.mem_append_right _ ht)
  have hxs : ∀ x ∈ xs, x.task.damage ≠ p.id :=
    fun x hx => h.damage_ne hp.1 (List.mem_append_left _ (List.mem_map_of_mem hx))
  refine ⟨hpending, hcounts, h.nodup_concat hp _ _, ?_, h.completions, ?_, ?_⟩
  · intro t ht
    rw [← List.append_assoc] at ht
    rcases List.mem_append.1 ht with ht | ht
    · obtain ⟨i, hi, hrest⟩ := h.accepted t ht
      exact ⟨i, List.mem_append_left _ hi, hrest⟩
    · exact ⟨_, List.mem_append_right _ List.mem_cons_self, (howns.damage t ht).1.symm, a, rfl⟩
  · intro i hi b hb
    rcases List.mem_append.1 hi with hi | hi
    · refine (h.accounted i hi b hb).extend fun t ht => ?_
      rw [(howns.damage t ht).1]
      exact (hold i hi).symm
    · cases List.mem_singleton.1 hi
      cases hb
      rw [hcells]
      exact Intake.Accounted.start howns hne hlive hxs h.completions
  · intro i hi b hb r hr
    rw [hledger] at hr
    rcases List.mem_append.1 hi with hi | hi
    · rw [if_neg (hold i hi).symm] at hr
      exact h.recorded i hi b hb r hr
    · cases List.mem_singleton.1 hi
      rw [if_pos rfl] at hr
      cases hr
      have hshots : shotsOf p.id xs = [] := by simpa [shotsOf, List.filter_eq_nil_iff] using hxs
      rw [hshots]
      rfl

/-- Taking in a parcel. -/
theorem accept (h : Tracked is xs live s) {p : Parcel} (hp : NewParcel is p) :
    Tracked (is ++ [⟨p, s.clock.now, (s.accept p.id p.damage).1⟩]) xs
      (live ++ s.newTasks p.id p.damage) (s.accept p.id p.damage).2 := by
  have hpending := @Kept.accept _ _ kept_pending is xs live s h.pending p trivial
  have htaken : ∀ t ∈ live, t.damage ∈ is.map (·.parcel.id) := by
    intro t ht
    obtain ⟨i, hi, hid, -⟩ := h.accepted t (List.mem_append_right _ ht)
    exact List.mem_map.2 ⟨i, hi, hid⟩
  have hcounts := (@Kept.accept _ _ kept_counts is xs live s ⟨h.counts, htaken⟩ p hp).1
  have hsmall : (s.newTasks p.id p.damage).length ≤ 4294967295 := by
    have hle := s.length_newTasks_le p.id p.damage
    have hlt := hp.2
    omega
  have hdistinct := hpending.nodup
  rw [List.map_append, List.nodup_append] at hdistinct
  rcases s.accept_cases p.id p.damage with
    ⟨hnil, reason, heq⟩ | ⟨hne, a, pending, layers, heq, -, hcells, -, -, -⟩
  · rw [heq, hnil, List.append_nil]
    exact h.discard hp s.clock.now p.id reason
  · rw [heq] at hpending hcounts ⊢
    refine h.enter hp hpending hcounts ?_ (s.owns_newTasks p _ hdistinct.2.1) hne fun k => ?_
    · rw [hcells, Capped.val_clamp, Nat.min_eq_left hsmall]
    · refine Ledger.getElem?_register ?_ k
      have hpos := List.length_pos_iff.2 hne
      show min _ _ ≠ 0
      omega

/-- Firing a task. -/
theorem settle (h : Tracked is xs (t :: live) s) (o : Outcome) :
    Tracked is (xs ++ [⟨s.clock.now, t, o, (s.settle t o).1⟩]) live (s.settle t o).2 := by
  obtain ⟨r, hr, hcompletion⟩ := s.settle_fst h.counts o
  generalize hx : (⟨s.clock.now, t, o, (s.settle t o).1⟩ : Shot) = x
  have hxtask : x.task = t := hx ▸ rfl
  have hxnow : x.tick = s.clock.now := hx ▸ rfl
  have hxcompletion : x.completion = if live.countP (·.damage = t.damage) = 0
      then some (s.completion (r.resolve o)) else none := hx ▸ hcompletion
  -- the record of the damage, whichever entry it is looked up for
  have hrecord : ∀ i ∈ is, ∀ a, i.verdict = .accepted a → t.damage = i.parcel.id →
      r.resolve o = i.record (r.remaining - 1) (shotsOf i.parcel.id (xs ++ [x])) := by
    intro i hi a ha hid
    rw [h.recorded i hi a ha r (hid ▸ hr), shotsOf_concat_own (hxtask ▸ hid),
      ← Intake.resolve_record, ← hx]
    rfl
  have hdamage : ∀ c, x.completion = some c → c.damage = t.damage := by
    intro c hc
    obtain ⟨i, hi, hid, a, ha⟩ := h.accepted t (List.mem_append_right _ List.mem_cons_self)
    rw [hxcompletion, hrecord i hi a ha hid.symm] at hc
    split at hc
    · cases hc
      exact hid
    · cases hc
  refine ⟨h.pending.remove, h.counts.resolve o, h.distinct, ?_, ?_, ?_, ?_⟩
  · -- the task has moved from those underway to those fired
    intro u hu
    rw [List.map_append, List.append_assoc, ← hx] at hu
    exact h.accepted u hu
  · intro y hy c hc
    rcases List.mem_append.1 hy with hy | hy
    · exact h.completions y hy c hc
    · cases List.mem_singleton.1 hy
      rw [hxtask]
      exact hdamage c hc
  · -- the account of the damage moves on, and those of other damage stay as they are
    intro i hi a ha
    have haccount := h.accounted i hi a ha
    by_cases hid : t.damage = i.parcel.id
    · refine haccount.fire_own hxtask hid ?_
      rw [hxcompletion, hid, hrecord i hi a ha hid]
      have hlength := haccount.length_eq
      rw [List.countP_cons_of_pos (by simpa using hid)] at hlength
      have hmax := a.cells.le_max
      split
      · refine ⟨_, rfl, hxnow ▸ i.reports_completion _ ?_ s⟩
        rw [shotsOf_concat_own (hxtask ▸ hid), List.length_append, List.length_singleton]
        omega
      · rfl
    · exact haccount.fire_other hxtask hid hdamage
  · -- a record that stays open has been charged if it is that of the damage
    intro i hi a ha q hq
    replace hq : (s.ledger.resolve t.damage o).2.records[i.parcel.id]? = some q := hq
    rw [Ledger.getElem?_resolve hr] at hq
    by_cases hid : t.damage = i.parcel.id
    · rw [if_pos hid] at hq
      split at hq
      · cases hq
      · cases hq
        rw [hrecord i hi a ha hid]
        rfl
    · rw [if_neg hid] at hq
      rw [shotsOf_concat_other (hxtask ▸ hid)]
      exact h.recorded i hi a ha q hq

end Tracked

/-- Every deed keeps the books and the records of a run in agreement. -/
theorem kept_tracked : Kept NewParcel Tracked where
  accept h _ hp := h.accept hp
  settle h o := h.settle o
  perm h hperm :=
    { pending := h.pending.perm (hperm.map Task.cell)
      counts := h.counts.perm hperm
      distinct := h.distinct
      accepted := fun t ht => h.accepted t ((hperm.append_left _).mem_iff.2 ht)
      completions := h.completions
      accounted := fun i hi a ha => (h.accounted i hi a ha).perm hperm
      recorded := h.recorded }
  frame h hpending hledger _ :=
    { pending := hpending.symm ▸ h.pending
      counts := hledger.symm ▸ h.counts
      distinct := h.distinct
      accepted := h.accepted
      completions := h.completions
      accounted := h.accounted
      recorded := hledger.symm ▸ h.recorded }

/-! ## What a tick tells and counts -/

namespace Scheduler

variable {ω η : Type} [Ground ω] [Listener η]

/-- The firing of a tick after the first `k` tasks that are due. -/
def firingAfter (s : Scheduler) (world : ω) (listener : η) (k : Nat) : Firing ω η :=
  (s.dueTasks.take k).foldl Firing.step
    { scheduler := s.poised, world, listener, tally := Tally.zero, completions := [] }

/-- Firing only the first tasks does what firing all of them does at first. -/
theorem shots_take (s : Scheduler) (world : ω) (ts : List Task) (k : Nat) :
    s.shots world (ts.take k) = (s.shots world ts).take k := by
  induction ts generalizing s world k with
  | nil => rw [List.take_nil, shots, List.take_nil]
  | cons t rest ih =>
      cases k with
      | zero => rfl
      | succ k => simp only [List.take_succ_cons, shots, ih]

/-- What a tick tells the listener and what it reports, where its firings are `xs` and firing
    starts in the state `ready`. -/
structure TickTells (ready : Scheduler) (world : ω) (listener : η) (xs : List Shot)
    (r : Ticked ω η) : Prop where
  /-- The firings are those of the tasks due, all of them on this tick. -/
  fired : xs.map Shot.task = ready.dueTasks ∧ ∀ x ∈ xs, x.tick = r.report.tick
  /-- After each firing the listener has heard the completions of the firings so far, and their
      outcomes are tallied. -/
  heard : ∀ k, (ready.firingAfter world listener k).listener
      = Listener.hear listener (completionsOf (xs.take k)) ∧
    (ready.firingAfter world listener k).tally
      = ((xs.take k).map Shot.outcome).foldl Tally.record Tally.zero
  /-- The report lists the completions in the order in which the listener heard them. -/
  reported : r.report.completions = completionsOf xs ∧
    r.listener = Listener.hear listener r.report.completions
  /-- The report counts the outcomes. -/
  counted : xs.length < 4294967296 →
    ∀ o, (r.report.tally.count o).val = (xs.map Shot.outcome).count o

theorem tick_tells {s : Scheduler} {world : ω} {listener : η} {r : Ticked ω η}
    (h : s.tick world listener = .ok r) :
    ∃ clock, s.clock.advance = .ok clock ∧
      TickTells (s.prepared clock) world listener (s.firedOn (.tick world listener)) r := by
  obtain ⟨clock, hclock, -⟩ := tick_eq_ok h
  have hperforms := performs_tick h
  have hheard := hperforms.completions.symm ▸ hperforms.listener
  refine ⟨clock, hclock, ⟨?_, hperforms.ticks⟩, fun k => ?_, ⟨hperforms.completions, hheard⟩, ?_⟩
  · rw [firedOn_tick hclock]
    exact map_task_shots _ _ _
  · rw [firedOn_tick hclock, firingAfter, foldl_firing_step, shots_take]
    exact ⟨rfl, rfl⟩
  · intro hsmall o
    rw [hperforms.tally]
    exact Tally.val_count_of_length_le (by rw [List.length_map]; omega) o

end Scheduler

/-! ## Every run -/

variable {settings : Regeneration} {seed : Tick} {s : Scheduler}

/-- **Every accepted damage is completed once.** In every run in which no identifier is handed in
    twice and no damage has more cells than a count can name, all accepted damage is accounted
    for: the listener is told of it once, right after the last of its tasks has fired, and how
    they came out. It is told of no discarded damage, and by no firing of a task of other damage.
    Each tick that runs tells the listener what it reports and counts what it fires. -/
theorem completed_once (fresh : Scheduler.new settings seed = .ok s) (deeds : List Deed)
    (distinct : ((handedIn deeds).map Parcel.id).Nodup)
    (small : ∀ p ∈ handedIn deeds, p.damage.cells.length < 4294967296) :
    (∀ i ∈ s.intakes deeds, ∀ a, i.verdict = .accepted a →
      i.Accounted a.cells.val (s.fired deeds) (s.run deeds).liveTasks) ∧
    (∀ i ∈ s.intakes deeds, (∀ a, i.verdict ≠ .accepted a) →
      ∀ c ∈ completionsOf (s.fired deeds), c.damage ≠ i.parcel.id) ∧
    (∀ x ∈ s.fired deeds, ∀ c, x.completion = some c → c.damage = x.task.damage) ∧
    ∀ {ω η : Type} [Ground ω] [Listener η] (before after : List Deed) (world : ω) (listener : η)
      (r : Scheduler.Ticked ω η), deeds = before ++ .tick world listener :: after →
      (s.run before).tick world listener = .ok r →
      ∃ clock xs, (s.run before).clock.advance = .ok clock ∧
        s.fired deeds = s.fired before ++ xs ++ (s.run (before ++ [.tick world listener])).fired
          after ∧
        Scheduler.TickTells ((s.run before).prepared clock) world listener xs r := by
  obtain ⟨hpending, -, -, hledger, -⟩ := Scheduler.new_eq fresh
  have hstart : Tracked [] [] [] s :=
    { pending := hpending.symm ▸ Pending.holds_empty
      counts := hledger.symm ▸ Ledger.counts_empty
      distinct := List.nodup_nil
      accepted := fun t ht => absurd ht List.not_mem_nil
      completions := fun x hx => absurd hx List.not_mem_nil
      accounted := fun i hi => absurd hi List.not_mem_nil
      recorded := fun i hi => absurd hi List.not_mem_nil }
  have htracked := kept_tracked.run fresh hstart deeds fun _ _ _ h =>
    newParcel_of_subperm distinct small h
  refine ⟨htracked.accounted, fun i hi hnot c hc heq => ?_, htracked.completions, ?_⟩
  · -- the damage of a completion was accepted, and no other entry has its identifier
    obtain ⟨x, hx, hxc⟩ := List.mem_filterMap.1 hc
    obtain ⟨j, hj, hid, a, ha⟩ :=
      htracked.accepted x.task (List.mem_append_left _ (List.mem_map_of_mem hx))
    have hsame : j.parcel.id = i.parcel.id := by
      rw [hid, ← heq, htracked.completions x hx c hxc]
    have hij : j = i := List.inj_on_of_nodup_map htracked.distinct hj hi hsame
    exact hnot a (hij ▸ ha)
  · intro ω η _ _ before after world listener r hdeeds hr
    obtain ⟨clock, hclock, htells⟩ := Scheduler.tick_tells hr
    refine ⟨clock, _, hclock, ?_, htells⟩
    rw [hdeeds]
    exact s.performsFirings.split before _ after

/-- The tasks of two parcels fire interleaved over a world in which one cell is in the way; a
    third parcel is discarded. -/
theorem completed_once_interleaved : ∃ s, Scheduler.new Regeneration.default 7 = .ok s ∧
    let ground := (((Atlas.empty []).withWorld "quarry").setNatural "quarry" (Pos.clamp 0 1 0)
      (Content.plain "stone")).2
    let deeds : List Deed := [.submit (quarried 1 [(0, 0), (0, 1)]), .setSpeed 10,
      .send (quarried 2 [(1, 0)]), .submit (quarried 3 [])] ++ List.replicate 40 (.tick ground ())
    ((handedIn deeds).map Parcel.id).Nodup ∧
      (∀ p ∈ handedIn deeds, p.damage.cells.length < 4294967296) ∧
      (∀ i ∈ s.intakes deeds, ∀ a, i.verdict = .accepted a →
        i.Accounted a.cells.val (s.fired deeds) (s.run deeds).liveTasks) ∧
      (s.fired deeds).map (fun x => (x.task.damage.toNat, x.completion.isSome))
        = [(1, false), (2, true), (1, true)] ∧
      (completionsOf (s.fired deeds)).map (fun c => (c.damage.toNat, c.tally.skipped.val))
        = [(2, 0), (1, 1)] := by
  refine ⟨_, rfl, ?_, ?_, (@completed_once Regeneration.default 7 _ rfl _ ?_ ?_).1, ?_, ?_⟩ <;>
    decide +kernel

end Mend
