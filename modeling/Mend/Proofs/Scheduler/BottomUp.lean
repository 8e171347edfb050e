import Mend.Proofs.Pacing
import Mend.Proofs.Scheduler.Pace
import Mend.Proofs.Scheduler.Passage

set_option autoImplicit false

/-! # Damage is restored from the bottom up

Of two cells of the same damage and the same provenance the lower one is released an interval
before the higher one, since what waits leaves in order of elevation; and it is given no longer
delay, jitter aside, as long as the speed does not rise in between. So it fires first, whatever
other damage joins the layers meanwhile. -/

namespace Mend

/-! ## The interval between two releases -/

/-- The interval since every release in the list is over on tick `n`, or would be on a later tick
    than there is and `n` is the last one. -/
def OverBy (gap : Nat) (ts : List Turn) (n : Nat) : Prop :=
  ∀ x ∈ ts, x.releases = true → min (x.tick.val + gap) 18446744073709551615 ≤ n

theorem OverBy.mono {gap n n' : Nat} {ts : List Turn} (h : OverBy gap ts n) (hle : n ≤ n') :
    OverBy gap ts n' :=
  fun x hx hr => Nat.le_trans (h x hx hr) hle

theorem overBy_concat {gap n : Nat} {ts : List Turn} {x : Turn} : OverBy gap (ts ++ [x]) n ↔
    OverBy gap ts n ∧ (x.releases = true → min (x.tick.val + gap) 18446744073709551615 ≤ n) := by
  simp only [OverBy, List.forall_mem_append, List.forall_mem_singleton]

/-- Releases are at least an interval apart as far as the ticks go, and the drain sees to it that
    the next one will be so too. Unlike `Paced` this holds up to the last tick there is. -/
structure Spaced (gap : Nat) (ts : List Turn) (n : Nat) (s : Scheduler) : Prop where
  gap_eq : gap = max 1 s.drain.interval.val
  past : ∀ x ∈ ts, x.tick.val < n
  apart : ∀ x ∈ ts, ∀ y ∈ ts, x.releases = true → y.releases = true → x.tick < y.tick →
    min (x.tick.val + gap) 18446744073709551615 ≤ y.tick.val
  idle : s.drain.phase = .idle → OverBy gap ts n
  draining : ∀ next, s.drain.phase = .draining next → OverBy gap ts (max next.val n)

namespace Spaced

variable {gap n : Nat} {ts : List Turn} {s s' : Scheduler}

theorem frame (h : Spaced gap ts n s) (hdrain : s'.drain = s.drain) : Spaced gap ts n s' := by
  refine ⟨?_, h.past, h.apart, ?_, ?_⟩ <;> rw [hdrain]
  · exact h.gap_eq
  · exact h.idle
  · exact h.draining

theorem accept (h : Spaced gap ts n s) (id : DamageId) (d : Damage) :
    Spaced gap ts n (s.accept id d).2 := by
  rcases s.accept_cases id d with ⟨-, _, heq⟩ | ⟨-, _, pending, layers, heq, -⟩
  · rwa [heq]
  · rw [heq]
    cases hphase : s.drain.phase with
    | draining next =>
        refine h.frame ?_
        simp [Drain.wake, hphase]
    | idle =>
        have hwake : s.drain.wake s.clock.now
            = { s.drain with phase := .draining s.clock.now } := by simp [Drain.wake, hphase]
        rw [hwake]
        refine ⟨h.gap_eq, h.past, h.apart, by simp, fun next _ => ?_⟩
        exact (h.idle hphase).mono (Nat.le_max_right _ _)

/-- One more release phase. -/
theorem concat (h : Spaced gap ts n s) {x : Turn} (htick : x.tick.val = n)
    (hx : x.releases = true → OverBy gap ts n)
    (hinterval : s'.drain.interval = s.drain.interval)
    (hidle : s'.drain.phase = .idle → OverBy gap (ts ++ [x]) (n + 1))
    (hdraining : ∀ next, s'.drain.phase = .draining next →
      OverBy gap (ts ++ [x]) (max next.val (n + 1))) :
    Spaced gap (ts ++ [x]) (n + 1) s' := by
  refine ⟨hinterval.symm ▸ h.gap_eq, ?_, ?_, hidle, hdraining⟩
  · rw [List.forall_mem_append, List.forall_mem_singleton, htick]
    exact ⟨fun z hz => Nat.lt_succ_of_lt (h.past z hz), Nat.lt_succ_self n⟩
  · intro y hy z hz hry hrz hlt
    rw [Capped.lt_def] at hlt
    rcases List.mem_append.1 hy with hold | hnew <;> rcases List.mem_append.1 hz with hold' | hnew'
    · exact h.apart y hold z hold' hry hrz hlt
    · obtain rfl := List.mem_singleton.1 hnew'
      exact htick ▸ hx hrz y hold hry
    · -- the new phase is later than all before it
      obtain rfl := List.mem_singleton.1 hnew
      have := h.past z hold'
      omega
    · obtain rfl := List.mem_singleton.1 hnew
      obtain rfl := List.mem_singleton.1 hnew'
      exact absurd hlt (Nat.lt_irrefl _)

theorem turn (h : Spaced gap ts n s) (hnow : s.clock.now.val = n) :
    Spaced gap (ts ++ [s.turn]) (n + 1) s.release.2.poised := by
  have htick : s.turn.tick.val = n := hnow
  rcases s.drain.poll_cases s.clock.now s.layers with
    ⟨hphase, hpoll⟩ | ⟨next, hphase, hlt, hpoll⟩ | ⟨next, hphase, hle, -, hpoll⟩ |
    ⟨next, layer, rest, hphase, hle, -, hpoll⟩
  · obtain ⟨hrelease, hturn⟩ := Scheduler.turn_of_poll_none hpoll
    have hquiet : s.turn.releases = false := by simp [hturn, Turn.releases]
    rw [hrelease]
    refine h.concat htick (by simp [hquiet]) rfl (fun _ => ?_) (by simp [Scheduler.poised, hphase])
    exact overBy_concat.2 ⟨(h.idle hphase).mono (Nat.le_succ n), by simp [hquiet]⟩
  · obtain ⟨hrelease, hturn⟩ := Scheduler.turn_of_poll_none hpoll
    have hquiet : s.turn.releases = false := by simp [hturn, Turn.releases]
    rw [hrelease]
    refine h.concat htick (by simp [hquiet]) rfl (by simp [Scheduler.poised, hphase])
      fun next' hnext' => ?_
    exact overBy_concat.2 ⟨(h.draining next' hnext').mono (by omega), by simp [hquiet]⟩
  · obtain ⟨hrelease, hturn⟩ := Scheduler.turn_of_poll_none hpoll
    have hquiet : s.turn.releases = false := by simp [hturn, Turn.releases]
    rw [Capped.le_def] at hle
    rw [hrelease]
    refine h.concat htick (by simp [hquiet]) rfl (fun _ => ?_) (by simp [Scheduler.poised])
    exact overBy_concat.2 ⟨(h.draining next hphase).mono (by omega), by simp [hquiet]⟩
  · -- the drain is ready, and waits an interval from now on
    obtain ⟨_, _, hrelease, -, -⟩ := Scheduler.turn_of_poll_some hpoll
    rw [Capped.le_def] at hle
    have hover : OverBy gap ts n := (h.draining next hphase).mono (by omega)
    have hgap := h.gap_eq
    rw [hrelease]
    refine h.concat htick (fun _ => hover) rfl (by simp [Scheduler.poised]) ?_
    rintro next' ⟨rfl⟩
    refine overBy_concat.2 ⟨hover.mono (by omega), fun _ => ?_⟩
    show _ ≤ max (min (s.clock.now.val + s.drain.interval.val) _) _
    omega

end Spaced

theorem flow_spaced (gap : Nat) : Flow (fun _ ts _ n s => Spaced gap ts n s) where
  accept h _ p := h.accept p.id p.damage
  turn h hnow _ _ _ := h.turn hnow
  frame h _ hdrain _ _ := h.frame hdrain

/-! ## The speed in force -/

namespace Scheduler

/-- The speed in force when a run comes to a tick. -/
def speedOn (s : Scheduler) : List Deed → Tick → Speed
  | [], _ => s.speed
  | d :: rest, tick =>
    if tick ≤ (s.after d).clock.now then s.speed else (s.after d).speedOn rest tick

/-- What a run releases on a tick gets its delay at the speed in force on that tick. -/
theorem follows_speedOn {s : Scheduler} {deeds : List Deed} {a : Appointment}
    (ha : a ∈ s.appointed deeds) :
    a.Follows a.made (s.pacing.withSpeed (s.speedOn deeds a.made)) := by
  induction deeds generalizing s with
  | nil => exact absurd ha List.not_mem_nil
  | cons d rest ih =>
      rw [appointed_cons, List.mem_append] at ha
      rw [speedOn]
      rcases ha with ha | ha
      · obtain ⟨x, hx, ha⟩ := List.mem_flatMap.1 ha
        have hfollows := follows_turnsOn hx ha
        rcases s.clock_after d with ⟨hnil, -⟩ | ⟨s', hone, hnow, -⟩
        · exact absurd (hnil ▸ hx) List.not_mem_nil
        · obtain rfl := List.mem_singleton.1 (hone ▸ hx)
          have hmade : a.made = (s.after d).clock.now := hfollows.made_eq.trans hnow
          rw [if_pos (hmade ▸ Capped.le_refl _), hfollows.made_eq]
          exact hfollows
      · have hlater := Capped.lt_def.2 (made_of_mem_appointed ha).1
        rw [if_neg (Capped.not_le.2 hlater)]
        have hfollows := ih ha
        rw [pacing_after] at hfollows
        exact hfollows

/-- A tick that runs does so at the speed in force. -/
theorem speedOn_tick {s : Scheduler} (before after : List Deed) {ω η : Type} [Ground ω]
    [Listener η] {world : ω} {listener : η} {r : Ticked ω η}
    (h : (s.run before).tick world listener = .ok r) :
    s.speedOn (before ++ .tick world listener :: after) r.report.tick = (s.run before).speed := by
  induction before generalizing s with
  | nil =>
      obtain ⟨clock, hclock, htick, -⟩ := tick_eq_ok h
      have hnow := (ticks_of_advance hclock world listener).clock_eq
      rw [List.nil_append, speedOn, htick]
      exact if_pos (hnow ▸ Capped.le_refl _)
  | cons d rest ih =>
      obtain ⟨clock, hclock, htick, -⟩ := tick_eq_ok h
      have hascend := ((s.after d).turns_ascend rest).2.1
      have hnow : clock.now.val = ((s.after d).run rest).clock.now.val + 1 :=
        Clock.now_of_advance hclock
      rw [List.cons_append, speedOn, if_neg, ih h]
      · rfl
      · rw [Capped.not_le, Capped.lt_def, htick]
        omega

end Scheduler

/-! ## Two tasks of the same damage -/

/-- What is admitted together has heights in order of elevation. -/
theorem Intake.Admits.height_le {i : Intake} {g : List Task} (h : i.Admits g) {t u : Task}
    (ht : t ∈ g) (hu : u ∈ g) (hlow : t.pos.y < u.pos.y) : t.height ≤ u.height := by
  obtain ⟨low, hmem, hleast, hheight⟩ := h.measured t ht
  obtain ⟨low', hmem', hleast', hheight'⟩ := h.measured u hu
  have hle := Coord.le_def.1 (hleast low' hmem')
  have hle' := Coord.le_def.1 (hleast' low hmem)
  rw [Coord.lt_def] at hlow
  rw [Capped.le_def]
  omega

namespace Scheduler

variable {settings : Regeneration} {seed : Tick} {s m : Scheduler} {before after : List Deed}
  {p : Parcel} {t u : Task} {a b : Appointment}

theorem mem_appointed_of_appointmentOf {deeds : List Deed}
    (h : s.appointmentOf deeds t = some a) : a ∈ s.appointed deeds ∧ a.task = t :=
  ⟨List.mem_of_find?_eq_some h, by simpa using List.find?_some h⟩

/-- An appointment of a run is made in a release phase that releases a layer. -/
theorem exists_turn_of_mem_appointed {deeds : List Deed} (h : a ∈ s.appointed deeds) :
    ∃ x ∈ s.turns deeds, x.releases = true ∧ a.made = x.tick := by
  obtain ⟨x, hx, ha⟩ := List.mem_flatMap.1 h
  obtain ⟨s', rfl⟩ := exists_of_mem_turns hx
  refine ⟨_, hx, ?_, (s'.follows_turn ha).made_eq⟩
  rcases s'.turn_cases with ⟨_, -, hturn⟩ | ⟨_, _, _, _, _, -, -, hturn, -⟩
  · rw [hturn] at ha
    exact absurd ha List.not_mem_nil
  · simp [Turn.releases, hturn]

/-- The lower of two tasks admitted together is released before the higher one. -/
theorem Meets.released (fresh : Scheduler.new settings seed = .ok s)
    (h : s.Meets before after p m) (ht : t ∈ m.newTasks p.id p.damage) (hlow : t.pos.y < u.pos.y)
    (hb : (s.run before).appointmentOf after u = some b) :
    ∃ a, (s.run before).appointmentOf after t = some a ∧ a.made < b.made := by
  obtain ⟨hmem, rfl⟩ := mem_appointed_of_appointmentOf hb
  have hadded : t ∈ tasksAt t.pos.y (m.accept p.id p.damage).2.layers.tasks :=
    mem_tasksAt.2 ⟨(m.accept_layers_perm p.id p.damage).mem_iff.2
      (List.mem_append_right _ ht), rfl⟩
  rcases h.leavesInOrder fresh t.pos.y (List.ne_nil_of_mem hadded) with
    hnone | ⟨batch, made, hfirst, hmap, hmade, hhigher⟩
  · exact absurd hlow (Int.not_lt.2 (Int.le_of_lt (hnone b hmem)))
  · -- the first appointment for the task is the one in its batch
    rw [← hmap] at hadded
    obtain ⟨a, ha⟩ := exists_find?_of_mem_map hadded
    refine ⟨a, ?_, ?_⟩
    · have hfound := hfirst.find?_eq_some ha
      rw [List.find?_filter] at hfound
      rw [appointmentOf, ← hfound]
      congr 1
      funext x
      by_cases hx : x.task = t <;> simp [hx]
    · rw [hmade a (List.mem_of_find?_eq_some ha)]
      exact hhigher b hmem hlow

theorem spaced_run (fresh : Scheduler.new settings seed = .ok s) (deeds : List Deed) :
    Spaced settings.gap (s.turns deeds) ((s.run deeds).clock.now.val + 1) (s.run deeds) := by
  obtain ⟨-, hdrain, -⟩ := Scheduler.new_pace fresh
  have hidle : s.drain.phase = .idle := by rw [hdrain]; rfl
  refine (flow_spaced settings.gap).run fresh ⟨?_, by simp, by simp, fun _ => ?_, ?_⟩ deeds
  · have hle := settings.layerInterval.le_max
    rw [hdrain]
    show max 1 settings.layerInterval.val = max 1 (min settings.layerInterval.val _)
    omega
  · simp [OverBy]
  · simp [hidle]

/-- An appointment follows the delay rule at the speed in force when it is made. -/
theorem follows_of_mem_appointed (fresh : Scheduler.new settings seed = .ok s)
    (ha : a ∈ (s.run before).appointed after) :
    a.Follows a.made (settings.pacing.withSpeed ((s.run before).speedOn after a.made)) := by
  have hfollows := follows_speedOn ha
  rwa [pacing_run fresh] at hfollows

/-- Two appointments made on different ticks are made an interval apart. -/
theorem made_add_gap_le (fresh : Scheduler.new settings seed = .ok s)
    (ha : a ∈ (s.run before).appointed after) (hb : b ∈ (s.run before).appointed after)
    (hlt : a.made < b.made) (hsmall : b.made.val + b.delay.val < 18446744073709551616) :
    a.made.val + settings.gap ≤ b.made.val := by
  have hdelay := (follows_of_mem_appointed fresh hb).max_one_minDelay_le
  obtain ⟨x, hx, hrx, hmadea⟩ := exists_turn_of_mem_appointed ha
  obtain ⟨y, hy, hry, hmadeb⟩ := exists_turn_of_mem_appointed hb
  have hturns : ∀ z ∈ (s.run before).turns after, z ∈ s.turns (before ++ after) := by
    intro z hz
    rw [turns, gather_append]
    exact List.mem_append_right _ hz
  rw [hmadea, hmadeb] at hlt
  have hapart := (spaced_run fresh (before ++ after)).apart x (hturns x hx) y (hturns y hy) hrx hry
    hlt
  rw [← hmadea, ← hmadeb] at hapart
  omega

/-- Of two tasks admitted together and of the same provenance, the delay of the lower one is longer
    by its jitter at most, if the speed does not rise. -/
theorem delay_le_of_meets (fresh : Scheduler.new settings seed = .ok s)
    (ht : t ∈ m.newTasks p.id p.damage) (hu : u ∈ m.newTasks p.id p.damage)
    (hkind : t.provenance = u.provenance) (hlow : t.pos.y < u.pos.y)
    (ha : (s.run before).appointmentOf after t = some a)
    (hb : (s.run before).appointmentOf after u = some b)
    (hspeed : (s.run before).speedOn after b.made ≤ (s.run before).speedOn after a.made) :
    a.delay.val ≤ b.delay.val + settings.maxJitter.val := by
  obtain ⟨hmema, rfl⟩ := mem_appointed_of_appointmentOf ha
  obtain ⟨hmemb, rfl⟩ := mem_appointed_of_appointmentOf hb
  have hfollowsa := follows_of_mem_appointed fresh hmema
  have hfollowsb := follows_of_mem_appointed fresh hmemb
  have hjitter : a.jitter.val ≤ settings.maxJitter.val := by
    obtain ⟨random, hdrawn⟩ := hfollowsa.drawn
    rw [hdrawn]
    exact Nat.le_trans (Nat.min_le_left _ _) (random.draw_le settings.maxJitter.val)
  have hheight := (m.accept_admits p m.clock.now).height_le ht hu hlow
  have hdelay := settings.pacing.delay_le_delay_add a.task.provenance hspeed hheight a.jitter
    b.jitter
  rw [← hfollowsa.delay_eq, hkind, ← hfollowsb.delay_eq] at hdelay
  omega

/-- In a run the lower of two tasks comes before the higher one. -/
structure Rises (s : Scheduler) (settings : Regeneration) (deeds : List Deed) (low high : Task) :
    Prop where
  /-- The higher one is not released before the lower one, nor with it. -/
  released : ∀ b, s.appointmentOf deeds high = some b →
    ∃ a, s.appointmentOf deeds low = some a ∧ a.made < b.made
  /-- The one is released an interval after the other. -/
  apart : ∀ a b, s.appointmentOf deeds low = some a → s.appointmentOf deeds high = some b →
    b.made.val + b.delay.val < 18446744073709551616 → a.made.val + settings.gap ≤ b.made.val
  /-- If the speed is no higher when the one is released, it is to fire an interval after the other,
      jitter aside. -/
  resolves : ∀ a b, s.appointmentOf deeds low = some a → s.appointmentOf deeds high = some b →
    b.made.val + b.delay.val < 18446744073709551616 →
    s.speedOn deeds b.made ≤ s.speedOn deeds a.made →
    a.made.val + a.delay.val + settings.gap
      ≤ b.made.val + b.delay.val + settings.maxJitter.val
  /-- Then, without jitter, the lower one has fired an interval before the higher one fires. -/
  strictly : ∀ a b, s.appointmentOf deeds low = some a → s.appointmentOf deeds high = some b →
    b.made.val + b.delay.val < 18446744073709551616 →
    s.speedOn deeds b.made ≤ s.speedOn deeds a.made → settings.maxJitter.val = 0 →
    ∀ y, s.firingOf deeds high = some y →
      ∃ x, s.firingOf deeds low = some x ∧ x.tick.val + settings.gap ≤ y.tick.val

/-- A task that has fired did so on the tick for which its appointment was. -/
theorem FiresFirst.tick_eq {deeds : List Deed} {tick : Tick} (h : s.FiresFirst deeds t tick)
    {x : Shot} (hx : s.firingOf deeds t = some x) :
    tick = x.tick ∧ tick ≤ (s.run deeds).clock.now := by
  rw [FiresFirst, hx, Option.map_some] at h
  split_ifs at h with hle
  exact ⟨(Option.some.inj h).symm, hle⟩

/-- A task whose tick has come has fired. -/
theorem FiresFirst.exists_firing {deeds : List Deed} {tick : Tick}
    (h : s.FiresFirst deeds t tick) (hle : tick ≤ (s.run deeds).clock.now) :
    ∃ x, s.firingOf deeds t = some x ∧ x.tick = tick := by
  rw [FiresFirst, if_pos hle, Option.map_eq_some_iff] at h
  exact h

theorem Meets.rises (fresh : Scheduler.new settings seed = .ok s)
    (h : s.Meets before after p m) (ht : t ∈ m.newTasks p.id p.damage)
    (hu : u ∈ m.newTasks p.id p.damage) (hkind : t.provenance = u.provenance)
    (hlow : t.pos.y < u.pos.y) : (s.run before).Rises settings after t u := by
  have hapart : ∀ a b, (s.run before).appointmentOf after t = some a →
      (s.run before).appointmentOf after u = some b →
      b.made.val + b.delay.val < 18446744073709551616 →
      a.made.val + settings.gap ≤ b.made.val := by
    intro a b ha hb hsmall
    obtain ⟨a', ha', hlt⟩ := h.released fresh ht hlow hb
    obtain rfl := Option.some.inj (ha.symm.trans ha')
    exact made_add_gap_le fresh (mem_appointed_of_appointmentOf ha).1
      (mem_appointed_of_appointmentOf hb).1 hlt hsmall
  have hresolves : ∀ a b, (s.run before).appointmentOf after t = some a →
      (s.run before).appointmentOf after u = some b →
      b.made.val + b.delay.val < 18446744073709551616 →
      (s.run before).speedOn after b.made ≤ (s.run before).speedOn after a.made →
      a.made.val + a.delay.val + settings.gap
        ≤ b.made.val + b.delay.val + settings.maxJitter.val := by
    intro a b ha hb hsmall hspeed
    have hmade := hapart a b ha hb hsmall
    have hdelay := delay_le_of_meets fresh ht hu hkind hlow ha hb hspeed
    omega
  refine ⟨fun b hb => h.released fresh ht hlow hb, hapart, hresolves, ?_⟩
  intro a b ha hb hsmall hspeed hzero y hy
  obtain ⟨hdue, hnow⟩ := ((h.resolves fresh hu).fires b hb).tick_eq hy
  have hsum := hresolves a b ha hb hsmall hspeed
  have hvala := a.val_deadline
  have hvalb := b.val_deadline
  obtain ⟨x, hx, htick⟩ := ((h.resolves fresh ht).fires a ha).exists_firing (by
    rw [Capped.le_def] at hnow ⊢
    omega)
  refine ⟨x, hx, ?_⟩
  rw [htick, ← hdue]
  omega

end Scheduler

/-! ## Every run -/

/-- A scheduler with the given settings restores damage from the bottom up. -/
structure Scheduler.BottomUp (s : Scheduler) (settings : Regeneration) : Prop where
  /-- Whatever a run takes in or discards, it comes to take it in at some moment. -/
  met : ∀ deeds, ∀ i ∈ s.intakes deeds, ∃ before after m, deeds = before ++ after ∧
    s.Meets before after i.parcel m ∧ i.tick = m.clock.now ∧
    i.verdict = (m.accept i.parcel.id i.parcel.damage).1
  /-- The tasks that this adds are for cells of the damage, and there are some exactly if it is
      accepted. -/
  admits : ∀ {before after p m}, s.Meets before after p m →
    Intake.Admits ⟨p, m.clock.now, (m.accept p.id p.damage).1⟩ (m.newTasks p.id p.damage)
  /-- The speed in force on a tick is that of the scheduler when the tick begins. -/
  speeds : ∀ before middle after {ω η : Type} [Ground ω] [Listener η] (world : ω) (listener : η)
    (r : Ticked ω η), ((s.run before).run middle).tick world listener = .ok r →
    (s.run before).speedOn (middle ++ .tick world listener :: after) r.report.tick
      = ((s.run before).run middle).speed
  /-- The firings from any moment on are those that the ticks from then on perform. -/
  performed : ∀ before, (s.run before).PerformsFirings
  /-- From that moment on, the first appointment made for such a task says when it first fires. -/
  fires : ∀ {before after p m}, s.Meets before after p m → ∀ t ∈ m.newTasks p.id p.damage,
    (s.run before).Resolves after t
  /-- Of two such tasks of the same provenance the lower one comes before the higher one. -/
  rises : ∀ {before after p m}, s.Meets before after p m →
    ∀ t ∈ m.newTasks p.id p.damage, ∀ u ∈ m.newTasks p.id p.damage,
      t.provenance = u.provenance → t.pos.y < u.pos.y → (s.run before).Rises settings after t u

/-- **Damage is restored from the bottom up.** In every run of a fresh scheduler, of two cells of
    the same damage and provenance the lower one is released at least an interval, and at least a
    tick, before the higher one; if the speed on the tick of the later release is not above that on
    the tick of the earlier one, the lower cell is to fire as much before the higher one, but for
    the largest jitter. Without jitter it always fires first, whatever else is handed in meanwhile
    and whether or not an identifier is handed in twice. -/
theorem bottom_up {settings : Regeneration} {seed : Tick} {s : Scheduler}
    (fresh : Scheduler.new settings seed = .ok s) : s.BottomUp settings where
  met _ _ hi := Scheduler.Meets.of_mem_intakes hi
  admits {_ _ p m} _ := m.accept_admits p m.clock.now
  speeds _ middle after _ _ _ _ _ _ _ h := Scheduler.speedOn_tick middle after h
  performed before := (s.run before).performsFirings
  fires h _ ht := h.resolves fresh ht
  rises h _ ht _ hu hkind hlow := h.rises fresh ht hu hkind hlow

/-- A layer of other damage comes between the two cells and the speed is lowered; the lower cell
    fires first. Later the same damage is handed in again. -/
theorem bottom_up_between : ∃ s, Scheduler.new { brisk with maxJitter := 0 } 7 = .ok s ∧
    s.BottomUp { brisk with maxJitter := 0 } ∧
    let tick : Deed := .tick (Atlas.empty []) ()
    let deeds : List Deed := [.submit (quarried 1 [(0, 1), (0, 4)]), tick,
      .send (quarried 2 [(3, 2)]), .setSpeed 1] ++ List.replicate 12 tick
      ++ [.submit (quarried 1 [(0, 1)])] ++ List.replicate 7 tick
    s.Meets [] deeds (quarried 1 [(0, 1), (0, 4)]) s ∧
      s.speedOn deeds 3 ≤ s.speedOn deeds 1 ∧
      (s.appointed deeds).map (fun a => (a.task.pos.y.val, a.made, a.delay))
        = [(1, 1, 2), (2, 2, 6), (4, 3, 9), (1, 14, 6)] ∧
      (s.fired deeds).map (fun x => (x.task.pos.y.val, x.tick))
        = [(1, 3), (2, 8), (4, 12), (1, 20)] :=
  ⟨_, rfl, @bottom_up { brisk with maxJitter := 0 } 7 _ rfl, .submitted [] _ _, by decide +kernel,
    by decide +kernel, by decide +kernel⟩

end Mend
