set_option autoImplicit false

/-! # Dates of the Gregorian calendar, carried on before its introduction -/

namespace Mend

/-- A year, a month and a day of the month. -/
structure Date where
  year : Int
  month : Nat
  day : Nat
deriving DecidableEq, Inhabited

namespace Date

/-- Whether a year has a 29th of February. -/
def isLeapYear (year : Int) : Bool :=
  year % 4 == 0 && (year % 100 != 0 || year % 400 == 0)

/-- The number of days of a month. -/
def daysIn (year : Int) (month : Nat) : Nat :=
  if month = 2 then (if isLeapYear year then 29 else 28)
  else if month = 4 ∨ month = 6 ∨ month = 9 ∨ month = 11 then 30
  else 31

/-- Whether the calendar has this date. -/
def IsValid (d : Date) : Prop :=
  (1 ≤ d.month ∧ d.month ≤ 12) ∧ (1 ≤ d.day ∧ d.day ≤ daysIn d.year d.month)

instance (d : Date) : Decidable d.IsValid := inferInstanceAs (Decidable (_ ∧ _))

/-- The day after. -/
def next (d : Date) : Date :=
  if d.day < daysIn d.year d.month then { d with day := d.day + 1 }
  else if d.month < 12 then ⟨d.year, d.month + 1, 1⟩
  else ⟨d.year + 1, 1, 1⟩

/-- The day before. -/
def previous (d : Date) : Date :=
  if 1 < d.day then { d with day := d.day - 1 }
  else if 1 < d.month then ⟨d.year, d.month - 1, daysIn d.year (d.month - 1)⟩
  else ⟨d.year - 1, 12, 31⟩

theorem one_le_daysIn (year : Int) (month : Nat) : 1 ≤ daysIn year month := by
  unfold daysIn
  repeat' split
  all_goals omega

theorem isValid_next {d : Date} (h : d.IsValid) : d.next.IsValid := by
  obtain ⟨⟨h1, h2⟩, h3, h4⟩ := h
  unfold next
  split
  · exact ⟨⟨h1, h2⟩, by simp, by simpa using by omega⟩
  · split
    · exact ⟨⟨by simp, by simpa using by omega⟩, by simp, by simpa using one_le_daysIn _ _⟩
    · exact ⟨⟨by simp, by simp⟩, by simp, by simpa using one_le_daysIn _ _⟩

theorem isValid_previous {d : Date} (h : d.IsValid) : d.previous.IsValid := by
  obtain ⟨⟨h1, h2⟩, h3, h4⟩ := h
  unfold previous
  split
  · exact ⟨⟨h1, h2⟩, by simpa using by omega, by simpa using by omega⟩
  · split
    · exact ⟨⟨by simpa using by omega, by simpa using by omega⟩,
        by simpa using one_le_daysIn _ _, by simp⟩
    · exact ⟨⟨by simp, by simp⟩, by simp, by simp [daysIn]⟩

end Date

end Mend
