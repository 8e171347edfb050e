import Mend.Time.Date

set_option autoImplicit false

/-! # Instants: moments of universal time, to the nanosecond -/

namespace Mend

/-- A time of day. The last second of a minute may be a leap second. -/
structure TimeOfDay where
  hour : Nat
  minute : Nat
  second : Nat
  nano : Nat
deriving DecidableEq, Inhabited

/-- Whether a clock shows this time. -/
def TimeOfDay.IsValid (t : TimeOfDay) : Prop :=
  (t.hour ≤ 23 ∧ t.minute ≤ 59) ∧ (t.second ≤ 60 ∧ t.nano ≤ 999999999)

instance (t : TimeOfDay) : Decidable t.IsValid := inferInstanceAs (Decidable (_ ∧ _))

/-- Whether a date is near enough for there to be instants on it. -/
def Date.InRange (d : Date) : Prop := -262143 ≤ d.year ∧ d.year ≤ 262142

instance (d : Date) : Decidable d.InRange := inferInstanceAs (Decidable (_ ∧ _))

/-- A moment of universal time. -/
structure Instant where
  date : Date
  time : TimeOfDay
  valid : date.IsValid ∧ time.IsValid
  inRange : date.InRange
deriving DecidableEq

namespace Instant

/-- Bring a number of minutes, counted from the start of a date and off by less than a day,
    within a day. -/
def carry (date : Date) (minutes : Int) : Date × Nat :=
  if minutes < 0 then (date.previous, (minutes + 1440).toNat)
  else if minutes < 1440 then (date, minutes.toNat)
  else (date.next, (minutes - 1440).toNat)

/-- The moment at which a clock that is `offset` minutes ahead of universal time, by less than
    a day, shows the given date and time. -/
def ofLocal? (date : Date) (time : TimeOfDay) (offset : Int) : Option Instant :=
  let (date', minutes) := carry date (time.hour * 60 + time.minute - offset)
  let time' : TimeOfDay := { time with hour := minutes / 60, minute := minutes % 60 }
  if h : (date'.IsValid ∧ time'.IsValid) ∧ date'.InRange then
    if date.IsValid ∧ time.IsValid then some ⟨date', time', h.1, h.2⟩ else none
  else none

theorem carry_of_inside (date : Date) {minutes : Nat} (h : minutes < 1440) :
    carry date minutes = (date, minutes) := by
  have h1 : ¬ ((minutes : Int) < 0) := by omega
  have h2 : (minutes : Int) < 1440 := by omega
  simp [carry, h1, h2]

/-- A clock that shows universal time shows the moment itself. -/
theorem ofLocal?_zero (t : Instant) : ofLocal? t.date t.time 0 = some t := by
  obtain ⟨date, ⟨hour, minute, second, nano⟩, ⟨hd, hc⟩, hr⟩ := t
  have hc' := hc
  obtain ⟨⟨hh, hm⟩, -⟩ := hc
  simp only at hh hm
  have hcarry : carry date ((hour : Int) * 60 + minute - 0) = (date, hour * 60 + minute) := by
    rw [← carry_of_inside date (show hour * 60 + minute < 1440 by omega)]
    congr 1
  have h4 : (hour * 60 + minute) / 60 = hour := by omega
  have h5 : (hour * 60 + minute) % 60 = minute := by omega
  simp only [ofLocal?, hcarry, h4, h5, hd, hc', hr, and_self, dite_true, if_true]

end Instant

end Mend
