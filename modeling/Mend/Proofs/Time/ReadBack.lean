import Mathlib.Tactic.SplitIfs
import Mend.Proofs.Text.Digits
import Mend.Time.Rfc3339

set_option autoImplicit false

/-! # Instants that are written and read

Each part of a written instant is read up to the next mark: a year before a hyphen, numbers of two
digits, and a fraction of as many digits as were written. So an instant is read back from its
text, to the nanosecond and in any year (`Instant.ofText?_text`). -/

namespace Mend

open Decimal

theorem isBlank_of_isDigit {c : Char} (h : isDigit c = true) : isBlank c = false := by
  have hbounds : 48 ≤ c.val.toNat ∧ c.val.toNat ≤ 57 := by
    simpa [isDigit, Char.le_def, UInt32.le_iff_toNat_le] using h
  simp only [isBlank, Blank.ranges, List.any_cons, List.any_nil, Bool.or_eq_false_iff,
    Bool.and_eq_false_iff, decide_eq_false_iff_not, Char.toNat, and_true]
  omega

/-- A text that begins with no white space is trimmed to itself. -/
theorem trimStart_cons {c : Char} (h : isBlank c = false) (cs : List Char) :
    trimStart (c :: cs) = c :: cs :=
  List.dropWhile_cons_of_neg (by simp [h])

theorem trimStart_append {ds : List Char} (hd : AllDigits ds) (hne : ds ≠ []) (rest : List Char) :
    trimStart (ds ++ rest) = ds ++ rest := by
  obtain ⟨c, cs, rfl⟩ := List.exists_cons_of_ne_nil hne
  exact trimStart_cons (isBlank_of_isDigit (hd c List.mem_cons_self)) _

namespace Instant

variable {ds rest : List Char} {limit n : Nat}

/-! ## Numbers -/

/-- Digits are read as their number where the limit or the text after them ends it. -/
theorem readNumber?_append (hd : AllDigits ds) (hne : ds ≠ []) (hlimit : ds.length ≤ limit)
    (hstop : ds.length = limit ∨ StopsDigits rest) :
    readNumber? limit (ds ++ rest) = some (read ds, rest) := by
  have hstops : StopsDigits (rest.take (limit - ds.length)) := by
    rcases hstop with heq | hrest
    · rw [heq, Nat.sub_self, List.take_zero]
      exact nofun
    · exact hrest.take _
  have htaken : ((ds ++ rest).take limit).takeWhile isDigit = ds := by
    rw [List.take_append, List.take_of_length_le hlimit]
    exact takeWhile_append hd hstops
  have hne' : ds.isEmpty = false := by simpa using hne
  simp only [readNumber?, htaken, hne', Bool.false_eq_true, if_false, List.drop_left]

/-- A number of fixed width is read back where its width is the limit. -/
theorem readNumber?_fixed (width : Nat) (hn : n < 10 ^ (width + 1)) (rest : List Char) :
    readNumber? (width + 1) (fixed (width + 1) n ++ rest) = some (n, rest) := by
  have hread := @readNumber?_append (fixed (width + 1) n) rest (width + 1) (allDigits_fixed _ _)
    (fixed_ne_nil _ _) (Nat.le_of_eq (length_fixed _ _)) (Or.inl (length_fixed _ _))
  rwa [read_fixed _ _ hn] at hread

/-- A year without a sign has four digits. -/
theorem readYear?_of_isDigit {c : Char} (h : isDigit c = true) (cs : List Char) :
    readYear? (c :: cs) = (readNumber? 4 (c :: cs)).map fun r => ((r.1 : Int), r.2) := by
  unfold readYear?
  split
  all_goals first
    | rfl
    | next heq =>
        cases heq
        exact absurd h (by decide)

/-- A year is read back before a hyphen. -/
theorem readYear?_writeYear (year : Int) (rest : List Char) :
    readYear? (trimStart (writeYear year ++ '-' :: rest)) = some (year, '-' :: rest) := by
  have hstop : StopsDigits ('-' :: rest) := by
    rintro _ ⟨⟩
    rfl
  by_cases hplain : 0 ≤ year ∧ year ≤ 9999
  · have hread := @readNumber?_fixed year.toNat 3 (by omega) ('-' :: rest)
    have hall := allDigits_fixed 4 year.toNat
    have hyear : (year.toNat : Int) = year := Int.toNat_of_nonneg hplain.1
    have hne := fixed_ne_nil 3 year.toNat
    rw [writeYear, if_pos hplain, trimStart_append hall hne]
    obtain ⟨c, cs, hc⟩ := List.exists_cons_of_ne_nil hne
    rw [hc, List.cons_append] at hread ⊢
    rw [readYear?_of_isDigit (hall c (hc ▸ List.mem_cons_self)), hread, Option.map_some, hyear]
  · -- after a sign any number of digits is read
    let digits := List.replicate (4 - (write year.natAbs).length) '0' ++ write year.natAbs
    have hall : AllDigits digits :=
      AllDigits.append (fun c hc => List.eq_of_mem_replicate hc ▸ rfl) (allDigits_write _)
    have hne : digits ≠ [] := List.append_ne_nil_of_right_ne_nil _ (write_ne_nil _)
    have hvalue : read digits = year.natAbs := by
      rw [read_replicate_append, read_write]
    have hread := @readNumber?_append digits ('-' :: rest) (digits ++ '-' :: rest).length hall hne
      (by simp) (Or.inr hstop)
    rw [hvalue] at hread
    rw [writeYear, if_neg hplain]
    by_cases hneg : year < 0
    · have hyear : -(year.natAbs : Int) = year := by omega
      rw [if_pos hneg, List.cons_append, trimStart_cons rfl]
      show (readNumber? (digits ++ '-' :: rest).length (digits ++ '-' :: rest)).map _ = _
      rw [hread, Option.map_some, hyear]
    · have hyear : (year.natAbs : Int) = year := by omega
      rw [if_neg hneg, List.cons_append, trimStart_cons rfl]
      show (readNumber? (digits ++ '-' :: rest).length (digits ++ '-' :: rest)).map _ = _
      rw [hread, Option.map_some, hyear]

/-! ## Dates and times -/

/-- A number of two digits is read back after its separator. -/
theorem readPart?_fixed {separator : Char} (hsep : isBlank separator = false) (hn : n < 100)
    (rest : List Char) :
    readPart? separator (separator :: (fixed 2 n ++ rest)) = some (n, rest) := by
  rw [readPart?, trimStart_cons hsep]
  simp only [if_true, trimStart_append (allDigits_fixed 2 n) (fixed_ne_nil 1 n)]
  exact readNumber?_fixed 1 hn rest

theorem daysIn_le (year : Int) (month : Nat) : Date.daysIn year month ≤ 31 := by
  unfold Date.daysIn
  repeat' split
  all_goals omega

theorem readDate?_chars {date : Date} (hvalid : date.IsValid) (hrange : date.InRange)
    (rest : List Char) :
    readDate? (writeYear date.year ++ '-' :: (fixed 2 date.month ++
      '-' :: (fixed 2 date.day ++ rest))) = some (date, rest) := by
  obtain ⟨⟨-, hmonth⟩, -, hday⟩ := hvalid
  have hdays := daysIn_le date.year date.month
  have hhyphen : isBlank '-' = false := by decide
  have hmonth := @readPart?_fixed date.month _ hhyphen (by omega)
  have hday := @readPart?_fixed date.day _ hhyphen (by omega)
  simp only [readDate?, readYear?_writeYear, Option.bind_some, hmonth, hday]
  exact if_pos hrange

/-- A fraction of `width` digits is read back, as nanoseconds. -/
theorem readFraction?_fixed {width : Nat} (hpos : 0 < width) (hwidth : width ≤ 9)
    (hn : n < 10 ^ width) (hstop : StopsDigits rest) :
    readFraction? ('.' :: (fixed width n ++ rest)) = some (n * 10 ^ (9 - width), rest) := by
  have hne : fixed width n ≠ [] := fun h => by
    rw [← length_fixed width n, h] at hpos
    exact absurd hpos (Nat.lt_irrefl 0)
  have hread := readNumber?_append (allDigits_fixed width n) hne
    (Nat.le_trans (Nat.le_of_eq (length_fixed _ _)) hwidth) (Or.inr hstop)
  rw [read_fixed width n hn] at hread
  have hdrop : rest.dropWhile isDigit = rest := @dropWhile_append [] rest nofun hstop
  simp only [readFraction?, hread, Option.map_some, hdrop, List.length_append, length_fixed,
    Nat.add_sub_cancel]
  rfl

theorem readFraction?_writeFraction {nano : Nat} (h : nano ≤ 999999999) :
    readFraction? (writeFraction nano ++ ['Z']) = some (nano, ['Z']) := by
  have hstop : StopsDigits ['Z'] := by
    rintro _ ⟨⟩
    rfl
  unfold writeFraction
  split_ifs with hzero hmilli hmicro
  · rw [hzero]
    rfl
  all_goals
    rw [List.cons_append, readFraction?_fixed (by decide) (by decide) (by omega) hstop]
    exact congrArg (fun n => some (n, ['Z'])) (by omega)

theorem readTime?_chars {time : TimeOfDay} (h : time.IsValid) :
    readTime? (fixed 2 time.hour ++ ':' :: (fixed 2 time.minute ++ ':' :: (fixed 2 time.second ++
      (writeFraction time.nano ++ ['Z'])))) = some (time, ['Z']) := by
  obtain ⟨⟨hhour, hminute⟩, hsecond, hnano⟩ := h
  have hcolon : isBlank ':' = false := by decide
  have hhour := @readNumber?_fixed time.hour 1 (by omega)
  have hminute := @readPart?_fixed time.minute _ hcolon (by omega)
  have hsecond := @readPart?_fixed time.second _ hcolon (by omega)
  simp only [readTime?, trimStart_append (allDigits_fixed 2 _) (fixed_ne_nil 1 _), hhour, hminute,
    hsecond, Option.bind_some, readFraction?_writeFraction hnano, Option.map_some]

/-! ## Instants -/

/-- An instant is read back from its text. -/
theorem ofText?_text (t : Instant) : ofText? t.text = some t := by
  have hdate := readDate?_chars t.valid.1 t.inRange
  have htime := readTime?_chars t.valid.2
  have hend : isDateEnd 'T' = true := by decide
  have htrim : trimStart ['Z'] = ['Z'] := trimStart_cons (by decide) []
  have hoffset : readOffset? ['Z'] = some (0, []) := rfl
  have hnothing : (trimStart []).isEmpty = true := rfl
  rw [ofText?, text, String.toList_ofList, ofChars?, chars]
  simp only [List.append_assoc, List.cons_append, hdate, Option.bind_some, hend, if_true, htime,
    htrim, hoffset, hnothing, ofLocal?_zero]

end Instant

end Mend
