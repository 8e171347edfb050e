import Mend.Atlas.Restore
import Mend.Proofs.Scheduler.Turns

set_option autoImplicit false

/-! # The pace of releases

A drain that releases a layer on one tick releases the next one an interval later, or, if nothing
waits then, as soon as something does; and it never sleeps while something waits. It may go idle
in between and be woken again, on the same tick or later, by what is submitted or by what was
sent; none of this shows. The release phase of a tick releases a layer exactly if it finds one and
the interval since every earlier release is over (`Timely`): of the earlier releases and of the
phase the drain is in, one determines the other (`Paced`). -/

namespace Mend

/-- Whether a layer was released. -/
def Turn.releases (x : Turn) : Bool := x.release.isSome

/-- Whether a layer waited. -/
def Turn.finds (x : Turn) : Bool := !x.found.isEmpty

/-- Every release in the list is at least `gap` ticks before tick `n`. -/
def Rested (gap : Nat) (ts : List Turn) (n : Nat) : Prop :=
  ∀ z ∈ ts, z.releases = true → z.tick.val + gap ≤ n

/-- Each phase in the list releases a layer exactly if it finds one and every release before it is
    at least `gap` ticks ago. -/
def Timely (gap : Nat) (ts : List Turn) : Prop :=
  ∀ before x, before ++ [x] <+: ts →
    (x.releases = true ↔ x.finds = true ∧ Rested gap before x.tick.val)

section Rested

variable {gap n : Nat} {ts : List Turn} {x : Turn}

theorem Rested.mono (h : Rested gap ts n) {n' : Nat} (hle : n ≤ n') : Rested gap ts n' :=
  fun z hz hr => Nat.le_trans (h z hz hr) hle

theorem rested_concat : Rested gap (ts ++ [x]) n ↔
    Rested gap ts n ∧ (x.releases = true → x.tick.val + gap ≤ n) := by
  simp [Rested, or_imp, forall_and]

theorem Timely.concat (h : Timely gap ts)
    (hx : x.releases = true ↔ x.finds = true ∧ Rested gap ts x.tick.val) :
    Timely gap (ts ++ [x]) := by
  intro before y hfront
  rcases List.prefix_concat_iff.1 hfront with heq | hfront
  · obtain ⟨rfl, hlast⟩ := List.append_inj' heq rfl
    obtain rfl := List.singleton_inj.1 hlast
    exact hx
  · exact h before y hfront

end Rested

/-! ## What follows for the list of release phases -/

/-- Releases keep a pace of `gap` ticks: the first phase that finds a layer releases one, after
    each release the next one is in the first phase at least `gap` ticks later that finds a layer,
    and so no two releases are closer. -/
structure AtPace (gap : Nat) (ts : List Turn) : Prop where
  first : ts.find? Turn.releases = ts.find? Turn.finds
  next : ∀ before x after, ts = before ++ x :: after → x.releases = true →
    after.find? Turn.releases = after.find? fun y => decide (x.tick.val + gap ≤ y.tick.val) && y.finds
  apart : ts.Pairwise fun x y =>
    x.releases = true → y.releases = true → x.tick.val + gap ≤ y.tick.val

/-- Two tests find the same element first if they agree wherever the first has failed so far. -/
theorem find?_congr_of_front {α : Type} {p q : α → Bool} {xs : List α}
    (h : ∀ before x, before ++ [x] <+: xs → (∀ z ∈ before, p z = false) → p x = q x) :
    xs.find? p = xs.find? q := by
  induction xs with
  | nil => rfl
  | cons x rest ih =>
      have hx : p x = q x := h [] x (by simp) (by simp)
      rw [List.find?_cons, List.find?_cons, ← hx]
      cases hp : p x with
      | true => rfl
      | false =>
          refine ih fun before y hfront hbefore => ?_
          exact h (x :: before) y (by simpa using hfront)
            (List.forall_mem_cons.2 ⟨hp, hbefore⟩)

theorem Timely.atPace {gap : Nat} {ts : List Turn} (h : Timely gap ts) : AtPace gap ts where
  first := by
    refine find?_congr_of_front fun before x hfront hbefore => ?_
    rw [Bool.eq_iff_iff, h before x hfront]
    -- where nothing was released before, nothing is in the way
    refine and_iff_left fun z hz hr => ?_
    rw [hbefore z hz] at hr
    cases hr
  next before x after hts hx := by
    refine find?_congr_of_front fun mid y hfront hmid => ?_
    have hxat := (h before x (by simp [hts])).1 hx
    have hy := h (before ++ x :: mid) y (by simpa [hts] using hfront)
    rw [Bool.eq_iff_iff, hy, Bool.and_eq_true, decide_eq_true_eq, and_comm]
    refine and_congr_left fun _ => ⟨fun hrest => hrest x (by simp) hx, fun hle z hz hr => ?_⟩
    rcases List.mem_append.1 hz with hz | hz
    · have := hxat.2 z hz hr
      omega
    · rcases List.mem_cons.1 hz with rfl | hz
      · exact hle
      · rw [hmid z hz] at hr
        cases hr
  apart := by
    induction ts using List.reverseRecOn with
    | nil => exact .nil
    | append_singleton ts x ih =>
        refine List.pairwise_append.2 ⟨ih fun before y hfront =>
          h before y (hfront.trans (List.prefix_append _ _)), List.pairwise_singleton _ _, ?_⟩
        intro z hz y hy hrz hry
        obtain rfl := List.mem_singleton.1 hy
        exact ((h ts y (List.prefix_refl _)).1 hry).2 z hz hrz

/-! ## What the drain knows of the releases so far -/

/-- The drain is in the phase that the releases so far and the waiting layers call for: it is idle
    only where nothing waits, and it is ready on a tick exactly if the interval since every
    release is over by then. The latter holds as long as sums of ticks are below the cap, that is,
    for release phases up to tick `last`. -/
structure Paced (interval last : Nat) (ts : List Turn) (n : Nat) (s : Scheduler) : Prop where
  interval_eq : s.drain.interval.val = interval
  idle : s.drain.phase = .idle → s.layers.layers = []
  soon : ∀ next, s.drain.phase = .draining next → next.val ≤ s.clock.now.val + interval
  timely : n ≤ last + 1 → Timely (max 1 interval) ts
  rested : n ≤ last + 1 → s.drain.phase = .idle → Rested (max 1 interval) ts n
  ready : n ≤ last + 1 → ∀ next, s.drain.phase = .draining next → ∀ m, n ≤ m →
    (next.val ≤ m ↔ Rested (max 1 interval) ts m)

namespace Paced

variable {interval last n : Nat} {ts : List Turn} {s : Scheduler}

theorem accept (h : Paced interval last ts n s) (hn : s.clock.now.val ≤ n) (id : DamageId)
    (d : Damage) : Paced interval last ts n (s.accept id d).2 := by
  rcases s.accept_cases id d with ⟨-, _, heq⟩ | ⟨-, _, pending, layers, heq, -⟩
  · rwa [heq]
  · rw [heq]
    cases hphase : s.drain.phase with
    | draining next =>
        have hwake : s.drain.wake s.clock.now = s.drain := by simp [Drain.wake, hphase]
        rw [hwake]
        exact ⟨h.interval_eq, by simp [hphase], h.soon, h.timely, h.rested, h.ready⟩
    | idle =>
        have hwake : s.drain.wake s.clock.now
            = { s.drain with phase := .draining s.clock.now } := by simp [Drain.wake, hphase]
        rw [hwake]
        refine ⟨h.interval_eq, by simp, ?_, h.timely, by simp, ?_⟩
        · rintro next ⟨rfl⟩
          exact Nat.le_add_right _ _
        · -- the drain may release at once, and every release is long enough ago for that
          rintro hlast next ⟨rfl⟩ m hm
          exact iff_of_true (Nat.le_trans hn hm) ((h.rested hlast hphase).mono hm)

theorem frame {s' : Scheduler} (h : Paced interval last ts n s) (hlayers : s'.layers = s.layers)
    (hdrain : s'.drain = s.drain) (hclock : s.clock.now.val ≤ s'.clock.now.val) :
    Paced interval last ts n s' := by
  refine ⟨hdrain ▸ h.interval_eq, hlayers ▸ hdrain ▸ h.idle, fun next hnext => ?_, h.timely,
    hdrain ▸ h.rested, hdrain ▸ h.ready⟩
  have := h.soon next (hdrain ▸ hnext)
  omega

theorem turn_empty (h : Paced interval last ts n s) (hnil : s.layers.layers = [])
    (hrested : n ≤ last + 1 → Rested (max 1 interval) ts n)
    (hpoll : s.drain.poll s.clock.now s.layers = (none, { s.drain with phase := .idle }, s.layers)) :
    Paced interval last (ts ++ [s.turn]) (n + 1) s.release.2.poised := by
  obtain ⟨hrelease, hturn⟩ := Scheduler.turn_of_poll_none hpoll
  have hquiet : s.turn.releases = false ∧ s.turn.finds = false := by
    simp [hturn, Turn.releases, Turn.finds, LayerQueue.isEmpty, hnil]
  rw [hrelease]
  refine ⟨h.interval_eq, fun _ => hnil, by simp [Scheduler.poised], fun hlast => ?_,
    fun hlast _ => ?_, by simp [Scheduler.poised]⟩
  · exact (h.timely (by omega)).concat (by simp [hquiet])
  · exact rested_concat.2 ⟨(hrested (by omega)).mono (Nat.le_succ n), by simp [hquiet]⟩

theorem turn_waiting (h : Paced interval last ts n s) (hnow : s.clock.now.val = n) {next : Tick}
    (hphase : s.drain.phase = .draining next) (hlt : s.clock.now < next)
    (hpoll : s.drain.poll s.clock.now s.layers = (none, s.drain, s.layers)) :
    Paced interval last (ts ++ [s.turn]) (n + 1) s.release.2.poised := by
  obtain ⟨hrelease, hturn⟩ := Scheduler.turn_of_poll_none hpoll
  have hquiet : s.turn.releases = false := by simp [hturn, Turn.releases]
  have htick : s.turn.tick.val = n := by rw [hturn]; exact hnow
  rw [Capped.lt_def, hnow] at hlt
  rw [hrelease]
  refine ⟨h.interval_eq, h.idle, h.soon, fun hlast => ?_, by simp [Scheduler.poised, hphase],
    fun hlast next' hnext' m hm => ?_⟩
  · -- the drain is not ready, so the interval since some release is not over
    refine (h.timely (by omega)).concat ?_
    have hready := h.ready (by omega) next hphase n (Nat.le_refl n)
    simp only [hquiet, htick, ← hready]
    simp
    omega
  · rw [h.ready (by omega) next' hnext' m (by omega), rested_concat]
    simp [hquiet]

theorem turn_release (h : Paced interval last ts n s) (hnow : s.clock.now.val = n)
    (hbound : last + interval < 18446744073709551616) {next : Tick}
    (hphase : s.drain.phase = .draining next) (hle : next ≤ s.clock.now) {layer : Layer}
    {rest : LayerQueue} (hne : s.layers.layers ≠ [])
    (hpoll : s.drain.poll s.clock.now s.layers = (some layer,
      { s.drain with phase := .draining (s.clock.now + s.drain.interval) }, rest)) :
    Paced interval last (ts ++ [s.turn]) (n + 1) s.release.2.poised := by
  obtain ⟨_, _, hrelease, hturn, -⟩ := Scheduler.turn_of_poll_some hpoll
  have hreleases : s.turn.releases = true ∧ s.turn.finds = true := by
    simp [hturn, Turn.releases, Turn.finds, LayerQueue.isEmpty, hne]
  have htick : s.turn.tick.val = n := by rw [hturn]; exact hnow
  have hinterval := h.interval_eq
  rw [Capped.le_def, hnow] at hle
  rw [hrelease]
  refine ⟨h.interval_eq, by simp [Scheduler.poised], ?_, fun hlast => ?_,
    by simp [Scheduler.poised], ?_⟩
  · rintro next' ⟨rfl⟩
    show min (s.clock.now.val + s.drain.interval.val) _ ≤ s.clock.now.val + interval
    omega
  · -- the drain is ready, so the interval since every release is over
    refine (h.timely (by omega)).concat ?_
    have hready := h.ready (by omega) next hphase n (Nat.le_refl n)
    simp only [hreleases, htick, ← hready, hle, and_self]
  · -- later than this tick, only this release counts
    rintro hlast next' ⟨rfl⟩ m hm
    have hrested := ((h.ready (by omega) next hphase n (Nat.le_refl n)).1 hle).mono
      (show n ≤ m by omega)
    show min (s.clock.now.val + s.drain.interval.val) _ ≤ m ↔ _
    rw [rested_concat, and_iff_right hrested, htick, imp_iff_right hreleases.1]
    omega

theorem turn (h : Paced interval last ts n s) (hnow : s.clock.now.val = n)
    (hbound : last + interval < 18446744073709551616) :
    Paced interval last (ts ++ [s.turn]) (n + 1) s.release.2.poised := by
  rcases s.drain.poll_cases s.clock.now s.layers with
    ⟨hphase, hpoll⟩ | ⟨next, hphase, hlt, hpoll⟩ | ⟨next, hphase, hle, hnil, hpoll⟩ |
    ⟨next, layer, rest, hphase, hle, hq, hpoll⟩
  · have hsame : ({ s.drain with phase := .idle } : Drain) = s.drain := by rw [← hphase]
    exact h.turn_empty (h.idle hphase) (fun hlast => h.rested hlast hphase)
      (hpoll.trans (by rw [hsame]))
  · exact h.turn_waiting hnow hphase hlt hpoll
  · refine h.turn_empty hnil (fun hlast => ?_) hpoll
    exact (h.ready hlast next hphase n (Nat.le_refl n)).1 (hnow ▸ hle)
  · exact h.turn_release hnow hbound hphase hle (by simp [hq]) hpoll

end Paced

theorem flow_paced {interval last : Nat} (hbound : last + interval < 18446744073709551616) :
    Flow (fun _ ts _ n s => Paced interval last ts n s) where
  accept h hn p := h.accept hn p.id p.damage
  turn h hnow _ _ _ := h.turn hnow hbound
  frame h hlayers hdrain _ hclock := h.frame hlayers hdrain hclock

/-! ## Every run -/

/-- A scheduler keeps a pace: it has one release phase on each tick, which release layers at the
    given interval, at least a tick apart, as long as sums of ticks are below the cap; and at every
    moment of a run at which something waits, its drain is to release a layer in at most that
    interval. -/
structure Scheduler.KeepsPace (s : Scheduler) (interval : Nat) : Prop where
  ticks : ∀ deeds, (s.turns deeds).map (·.tick.val) = List.range' 1 (s.run deeds).clock.now.val
  reports : ∀ deeds {ω η : Type} [Ground ω] [Listener η] (world : ω) (listener : η)
    (r : Ticked ω η), (s.run deeds).tick world listener = .ok r →
    ∃ x : Turn, (s.run deeds).turnsOn (.tick world listener) = [x] ∧ x.Reported (s.run deeds) r
  pace : ∀ deeds, (s.run deeds).clock.now.val + interval < 18446744073709551616 →
    AtPace (max 1 interval) (s.turns deeds)
  awake : ∀ {before after : List Deed} {gs : List (List Task)} {m : Scheduler},
    s.Passes before after gs m → m.layers.isEmpty = false →
    ∃ next, m.drain.phase = .draining next ∧ next.val ≤ m.clock.now.val + interval

section Reachable

variable {settings : Regeneration} {seed : Tick} {s : Scheduler}

theorem Scheduler.paced_start (fresh : Scheduler.new settings seed = .ok s) (last : Nat) :
    Paced settings.layerInterval.val last [] 1 s := by
  obtain ⟨-, hlayers, -⟩ := Scheduler.new_eq fresh
  obtain ⟨-, hdrain, -⟩ := Scheduler.new_pace fresh
  have hidle : s.drain.phase = .idle := by rw [hdrain]; rfl
  refine ⟨?_, fun _ => by rw [hlayers]; rfl, by simp [hidle], fun _ => ?_, fun _ _ => ?_,
    by simp [hidle]⟩
  · have hle := settings.layerInterval.le_max
    rw [hdrain]
    show min settings.layerInterval.val _ = _
    omega
  · intro before x hfront
    simp at hfront
  · simp [Rested]

/-- **Layers are released at an even pace.** In every run of a fresh scheduler the first layer is
    released on the first tick on which one waits, and after each release the next layer is
    released on the first tick on which one waits that is at least the interval, and at least one
    tick, later. The drain never sleeps while a layer waits. -/
theorem released_at_pace (fresh : Scheduler.new settings seed = .ok s) :
    s.KeepsPace settings.layerInterval.val where
  ticks := Scheduler.ticks_turns (Scheduler.new_pace fresh).1
  reports deeds _ _ _ _ world listener r h := Scheduler.turnsOn_tick h
  pace deeds hbound :=
    ((flow_paced hbound).run fresh (Scheduler.paced_start fresh _) deeds).timely
      (Nat.le_refl _) |>.atPace
  awake {before after gs m} hm hne := by
    have hbound : 0 + settings.layerInterval.val < 18446744073709551616 := by
      have := settings.layerInterval.le_max
      omega
    have hpaced := (flow_paced hbound).passes fresh (Scheduler.paced_start fresh 0) hm
    cases hphase : m.drain.phase with
    | idle => simp [LayerQueue.isEmpty, hpaced.idle hphase] at hne
    | draining next => exact ⟨next, rfl, hpaced.soon next hphase⟩

/-- Of two layers an interval apart the second waits for its turn; a third, sent after the drain
    has gone idle, is released at once. -/
theorem released_at_pace_resumed : ∃ s, Scheduler.new Regeneration.default 7 = .ok s ∧
    let tick : Deed := .tick (Atlas.empty []) ()
    let deeds : List Deed := [.submit (quarried 1 [(0, 0)]), tick, .submit (quarried 2 [(1, 0)]),
      tick, tick, tick, tick, .send (quarried 3 [(2, 0)]), tick]
    s.KeepsPace 2 ∧ (s.run deeds).clock.now.val + 2 < 18446744073709551616 ∧
      ((s.turns deeds).filter Turn.finds).map Turn.tick = [1, 2, 3, 6] ∧
      ((s.turns deeds).filter Turn.releases).map Turn.tick = [1, 3, 6] :=
  ⟨_, rfl, @released_at_pace Regeneration.default 7 _ rfl, by decide +kernel, by decide +kernel,
    by decide +kernel⟩

end Reachable

end Mend
