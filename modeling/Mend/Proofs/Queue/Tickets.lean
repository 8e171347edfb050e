import Mend.Proofs.Queue.Backlog

set_option autoImplicit false

/-! # Agendas as bags of numbered entries

An agenda can also be kept as a bag of tickets, each with a number that tells how many were put down
before it. The ticket that is picked from the bag is one that comes before all others, by deadline
and then by number, and draining picks tickets for as long as they are due. Numbers are reckoned
modulo 2⁶⁴. As long as they have not run out, the tickets picked are the front of a list in which
each comes before the next, and this list is the agenda (`TicketBag.Mirrors`). So bag and agenda
drain the same, and both as the list of what waits does (`drained_stably`). -/

namespace Mend

/-- An entry of an agenda with a number. -/
structure Ticket (α : Type) where
  deadline : Tick
  number : Nat
  item : α

namespace Ticket

variable {α : Type}

/-- The entry without its number. -/
def entry (t : Ticket α) : Tick × α := (t.deadline, t.item)

/-- A ticket comes before another if it falls due earlier, or on the same tick with a lower
    number. -/
def Before (t u : Ticket α) : Prop :=
  t.deadline < u.deadline ∨ t.deadline = u.deadline ∧ t.number < u.number

instance (t u : Ticket α) : Decidable (t.Before u) := inferInstanceAs (Decidable (_ ∨ _))

variable {t u v : Ticket α} {ts rest : List (Ticket α)}

theorem Before.asymm (h : t.Before u) : ¬ u.Before t := by
  simp only [Before, Capped.lt_def, Capped.ext_iff] at *
  omega

theorem Before.deadline_le (h : t.Before u) : t.deadline ≤ u.deadline := by
  simp only [Before, Capped.lt_def, Capped.le_def, Capped.ext_iff] at *
  omega

theorem not_before_trans (h : ¬ v.Before u) (h' : ¬ u.Before t) : ¬ v.Before t := by
  simp only [Before, Capped.lt_def, Capped.ext_iff] at *
  omega

/-- Take a ticket that comes before all others out of a bag. -/
def pick? : List (Ticket α) → Option (Ticket α × List (Ticket α))
  | [] => none
  | t :: rest =>
    match pick? rest with
    | none => some (t, [])
    | some (u, others) => if u.Before t then some (u, t :: others) else some (t, u :: others)

theorem pick?_eq_none_iff : pick? ts = none ↔ ts = [] := by
  cases ts with
  | nil => simp [pick?]
  | cons t rest =>
      simp only [pick?, reduceCtorEq, iff_false]
      split
      · simp
      · split_ifs <;> simp

/-- The ticket that is picked was in the bag, and no other comes before it. -/
theorem pick?_spec (h : pick? ts = some (t, rest)) :
    (t :: rest).Perm ts ∧ ∀ u ∈ rest, ¬ u.Before t := by
  induction ts generalizing t rest with
  | nil => cases h
  | cons s ts ih =>
      rw [pick?] at h
      split at h
      · next hnone =>
        cases h
        rw [pick?_eq_none_iff.1 hnone]
        exact ⟨List.Perm.refl _, fun u hu => absurd hu List.not_mem_nil⟩
      · next u others hpick =>
        obtain ⟨hperm, hfirst⟩ := ih hpick
        split_ifs at h with hbefore <;> cases h
        · refine ⟨(List.Perm.swap _ _ _).trans (hperm.cons _), ?_⟩
          exact List.forall_mem_cons.2 ⟨hbefore.asymm, hfirst⟩
        · refine ⟨hperm.cons _, List.forall_mem_cons.2 ⟨hbefore, fun v hv => ?_⟩⟩
          exact not_before_trans (hfirst v hv) hbefore

theorem length_pick? (h : pick? ts = some (t, rest)) : rest.length < ts.length := by
  have hlength := (pick?_spec h).1.length_eq
  rw [List.length_cons] at hlength
  omega

/-- Pick tickets for as long as they are due. Returns their items and the tickets that are left. -/
def drain (now : Tick) (ts : List (Ticket α)) : List α × List (Ticket α) :=
  match _ : pick? ts with
  | none => ([], ts)
  | some (t, rest) =>
    if t.deadline ≤ now then (t.item :: (drain now rest).1, (drain now rest).2) else ([], ts)
termination_by ts.length
decreasing_by all_goals exact length_pick? (by assumption)

/-! ## Tickets in order -/

/-- Of tickets that can be put in order the first is picked. -/
theorem pick?_of_ordered {es : List (Ticket α)} (horder : (t :: es).Pairwise Before)
    (hperm : (t :: es).Perm ts) : ∃ rest, pick? ts = some (t, rest) ∧ es.Perm rest := by
  cases hpick : pick? ts with
  | none =>
      rw [pick?_eq_none_iff.1 hpick] at hperm
      exact absurd hperm.eq_nil (List.cons_ne_nil _ _)
  | some r =>
      obtain ⟨u, rest⟩ := r
      obtain ⟨hbag, hfirst⟩ := pick?_spec hpick
      have hu : u = t := by
        have hmem : u ∈ t :: es := hperm.mem_iff.2 (hbag.mem_iff.1 List.mem_cons_self)
        rcases List.mem_cons.1 hmem with heq | hlater
        · exact heq
        · -- another ticket than the first would have the first among those left
          have hbefore := (List.pairwise_cons.1 horder).1 u hlater
          rcases List.mem_cons.1 (hbag.mem_iff.2 (hperm.mem_iff.1 List.mem_cons_self)) with
            heq | hleft
          · exact heq.symm
          · exact absurd hbefore (hfirst t hleft)
      subst hu
      exact ⟨rest, rfl, (hperm.trans hbag.symm).cons_inv⟩

/-- Tickets that can be put in order are drained in that order. -/
theorem drain_of_ordered (now : Tick) {es : List (Ticket α)} (horder : es.Pairwise Before)
    (hperm : es.Perm ts) :
    (drain now ts).1 = (es.takeWhile (·.deadline ≤ now)).map item ∧
      (es.dropWhile (·.deadline ≤ now)).Perm (drain now ts).2 := by
  induction es generalizing ts with
  | nil =>
      rw [← hperm.nil_eq, drain]
      exact ⟨rfl, List.Perm.refl _⟩
  | cons t es ih =>
      obtain ⟨rest, hpick, hrest⟩ := pick?_of_ordered horder hperm
      obtain ⟨htaken, hleft⟩ := ih (List.pairwise_cons.1 horder).2 hrest
      rw [drain, hpick]
      by_cases hdue : t.deadline ≤ now
      · simp [hdue, htaken, hleft]
      · simp [hdue, hperm]

/-- A ticket with a higher number than all others has its place behind those that fall due no
    later. -/
theorem exists_ordered_insert {es : List (Ticket α)} (horder : es.Pairwise Before)
    (hnew : ∀ e ∈ es, e.number < t.number) :
    ∃ es' : List (Ticket α), es'.Pairwise Before ∧ es'.Perm (t :: es) ∧
      es'.map entry = Agenda.insertEntry t.deadline t.item (es.map entry) := by
  induction es with
  | nil => exact ⟨[t], List.pairwise_singleton _ _, List.Perm.refl _, rfl⟩
  | cons e es ih =>
      rw [List.forall_mem_cons] at hnew
      obtain ⟨hfirst, hrest⟩ := List.pairwise_cons.1 horder
      by_cases hle : e.deadline ≤ t.deadline
      · obtain ⟨es', horder', hperm, hmap⟩ := ih hrest hnew.2
        refine ⟨e :: es', List.pairwise_cons.2 ⟨fun u hu => ?_, horder'⟩,
          (hperm.cons e).trans (List.Perm.swap _ _ _), ?_⟩
        · rcases List.mem_cons.1 (hperm.mem_iff.1 hu) with rfl | hu
          · have hnumber := hnew.1
            simp only [Before, Capped.lt_def, Capped.le_def, Capped.ext_iff] at *
            omega
          · exact hfirst u hu
        · rw [List.map_cons, hmap, List.map_cons, Agenda.insertEntry, entry, if_pos hle]
      · have hlt := Capped.not_le.1 hle
        refine ⟨t :: e :: es, List.pairwise_cons.2 ⟨fun u hu => Or.inl ?_, horder⟩,
          List.Perm.refl _, ?_⟩
        · rcases List.mem_cons.1 hu with rfl | hu
          · exact hlt
          · exact Capped.lt_of_lt_of_le hlt (hfirst u hu).deadline_le
        · rw [List.map_cons, List.map_cons, Agenda.insertEntry, entry, entry, if_neg hle]

end Ticket

/-! ## Bags -/

/-- Whether a call puts an entry down. -/
def Agenda.Call.isSchedule {α : Type} : Agenda.Call α → Bool
  | .schedule _ _ => true
  | .drain _ | .clear => false

/-- Tickets in any order, and the number of the next one. -/
structure TicketBag (α : Type) where
  tickets : List (Ticket α)
  next : Nat

namespace TicketBag

variable {α : Type}

/-- The bag without tickets. -/
def empty : TicketBag α := ⟨[], 0⟩

/-- Take out what falls due by `now`. -/
def drain (b : TicketBag α) (now : Tick) : List α × TicketBag α :=
  ((Ticket.drain now b.tickets).1, { b with tickets := (Ticket.drain now b.tickets).2 })

/-- The earliest deadline. -/
def earliest? (b : TicketBag α) : Option Tick := (Ticket.pick? b.tickets).map (·.1.deadline)

/-- The bag after a call. -/
def after (b : TicketBag α) : Agenda.Call α → TicketBag α
  | .schedule deadline item =>
    ⟨⟨deadline, b.next, item⟩ :: b.tickets, (b.next + 1) % 18446744073709551616⟩
  | .drain now => (b.drain now).2
  | .clear => { b with tickets := [] }

/-- The bag after a list of calls. -/
def ofCalls (calls : List (Agenda.Call α)) : TicketBag α := calls.foldl after empty

/-- Put in order, the tickets of the bag are the entries of the agenda. Their numbers are below
    `count`, which is that of the next ticket. -/
structure Mirrors (b : TicketBag α) (a : Agenda α) (count : Nat) : Prop where
  next : b.next = count % 18446744073709551616
  ordered : ∃ es : List (Ticket α), es.Pairwise Ticket.Before ∧ es.Perm b.tickets ∧
    es.map Ticket.entry = a.entries ∧ ∀ e ∈ es, e.number < count

theorem mirrors_empty : (empty : TicketBag α).Mirrors Agenda.empty 0 :=
  ⟨rfl, [], List.Pairwise.nil, List.Perm.refl _, rfl, by simp⟩

namespace Mirrors

variable {b : TicketBag α} {a : Agenda α} {count : Nat}

theorem schedule (h : b.Mirrors a count) (hcount : count < 18446744073709551616) (deadline : Tick)
    (item : α) : (b.after (.schedule deadline item)).Mirrors (a.schedule deadline item)
      (count + 1) := by
  obtain ⟨hnext, es, horder, hperm, hentries, hnumbers⟩ := h
  rw [Nat.mod_eq_of_lt hcount] at hnext
  obtain ⟨es', horder', hperm', hmap⟩ :=
    Ticket.exists_ordered_insert (t := ⟨deadline, count, item⟩) horder hnumbers
  refine ⟨by rw [after, hnext], es', horder', ?_, ?_, fun e he => ?_⟩
  · rw [after, hnext]
    exact hperm'.trans (hperm.cons _)
  · rw [hmap, hentries]
    rfl
  · rcases List.mem_cons.1 (hperm'.mem_iff.1 he) with rfl | he
    · exact Nat.lt_succ_self count
    · exact Nat.lt_succ_of_lt (hnumbers e he)

/-- The bag drains as the agenda does, and is the agenda afterwards as it was before. -/
theorem drain (h : b.Mirrors a count) (now : Tick) :
    (b.drain now).1 = (a.drain now).1 ∧ (b.drain now).2.Mirrors (a.drain now).2 count := by
  obtain ⟨hnext, es, horder, hperm, hentries, hnumbers⟩ := h
  obtain ⟨htaken, hleft⟩ := Ticket.drain_of_ordered now horder hperm
  refine ⟨?_, hnext, es.dropWhile (·.deadline ≤ now), horder.sublist (List.dropWhile_sublist _),
    hleft, ?_, fun e he => hnumbers e ((List.dropWhile_sublist _).subset he)⟩
  · show (Ticket.drain now b.tickets).1 = (a.entries.takeWhile _).map _
    rw [htaken, ← hentries, List.takeWhile_map, List.map_map]
    rfl
  · show _ = a.entries.dropWhile _
    rw [← hentries, List.dropWhile_map]
    rfl

theorem earliest? (h : b.Mirrors a count) : b.earliest? = a.next? := by
  obtain ⟨es, horder, hperm, hentries, -⟩ := h.ordered
  rw [TicketBag.earliest?, Agenda.next?, ← hentries]
  cases es with
  | nil =>
      rw [← hperm.nil_eq]
      rfl
  | cons t es =>
      obtain ⟨rest, hpick, -⟩ := Ticket.pick?_of_ordered horder hperm
      rw [hpick]
      rfl

theorem after (h : b.Mirrors a count) (c : Agenda.Call α)
    (hcount : count + (if c.isSchedule then 1 else 0) < 18446744073709551616) :
    (b.after c).Mirrors (a.after c) (count + if c.isSchedule then 1 else 0) := by
  cases c with
  | schedule deadline item => exact h.schedule (Nat.lt_of_succ_lt hcount) deadline item
  | drain now => exact (h.drain now).2
  | clear => exact ⟨h.next, [], List.Pairwise.nil, List.Perm.refl _, rfl, by simp⟩

end Mirrors

/-- As long as the numbers have not run out, the bag mirrors the agenda that got the same calls. -/
theorem mirrors_ofCalls (calls : List (Agenda.Call α))
    (hcount : calls.countP Agenda.Call.isSchedule < 18446744073709551616) :
    (ofCalls calls).Mirrors (Agenda.ofCalls calls) (calls.countP Agenda.Call.isSchedule) := by
  induction calls using List.reverseRecOn with
  | nil => exact mirrors_empty
  | append_singleton calls c ih =>
      rw [List.countP_append, List.countP_singleton] at hcount ⊢
      rw [ofCalls, Agenda.ofCalls, List.foldl_concat, List.foldl_concat]
      exact (ih (by omega)).after c hcount

end TicketBag

/-- **An agenda is a stable sort.** Whatever was put down, drained and cleared, an agenda answers as
    the list of what waits, in the order in which it was put down. It drains the entries of this
    list that are due, sorted by deadline and on one tick in the order of the list. Draining in two
    steps takes the same as draining once. As long as less than 2⁶⁴ entries were put down, a bag of
    numbered entries holds what waits, has the same earliest deadline and drains the same. -/
theorem drained_stably {α : Type} (calls : List (Agenda.Call α)) :
    let a := Agenda.ofCalls calls
    a.Answers (Agenda.waiting calls) ∧
      (∀ n₁ n₂ : Tick, n₁ ≤ n₂ →
        (a.drain n₁).1 ++ ((a.drain n₁).2.drain n₂).1 = (a.drain n₂).1 ∧
          ((a.drain n₁).2.drain n₂).2 = (a.drain n₂).2) ∧
      (calls.countP Agenda.Call.isSchedule < 18446744073709551616 →
        ((TicketBag.ofCalls calls).tickets.map Ticket.entry).Perm (Agenda.waiting calls) ∧
          (TicketBag.ofCalls calls).earliest? = a.next? ∧
            ∀ now, ((TicketBag.ofCalls calls).drain now).1 = (a.drain now).1) := by
  refine ⟨Agenda.answers_ofCalls calls, fun n₁ n₂ hle => Agenda.drain_drain _ hle,
    fun hcount => ?_⟩
  have hmirrors := TicketBag.mirrors_ofCalls calls hcount
  refine ⟨?_, hmirrors.earliest?, fun now => (hmirrors.drain now).1⟩
  obtain ⟨es, -, hperm, hentries, -⟩ := hmirrors.ordered
  have hwaiting := perm_stableSort Prod.fst (Agenda.waiting calls)
  rw [← Agenda.entries_ofCalls, ← hentries] at hwaiting
  exact (hperm.map _).symm.trans hwaiting

/-- Two entries fall due on tick 7, and a drain stands between them. The entry for tick 1 is put
    down when that tick is over. -/
theorem drained_stably_around_a_drain :
    let calls : List (Agenda.Call String) := [.schedule 7 "west", .schedule 3 "north", .drain 2,
      .schedule 7 "east", .schedule 1 "south"]
    let a := Agenda.ofCalls calls
    ((3 : Tick) ≤ 7 ∧ calls.countP Agenda.Call.isSchedule < 18446744073709551616) ∧
      (a.drain 3).1 = ["south", "north"] ∧ ((a.drain 3).2.drain 7).1 = ["west", "east"] ∧
      ((TicketBag.ofCalls calls).drain 7).1 = ["south", "north", "west", "east"] := by
  intro calls a
  obtain ⟨-, htwice, hbag⟩ := drained_stably calls
  have hcount : calls.countP Agenda.Call.isSchedule < 18446744073709551616 := by decide
  refine ⟨⟨by decide, hcount⟩, by decide, by decide, ?_⟩
  rw [(hbag hcount).2.2 7, ← (htwice 3 7 (by decide)).1]
  decide

end Mend
