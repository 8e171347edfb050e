import Mend.Json.Token
import Mend.Proofs.Text.Digits

set_option autoImplicit false

/-! # Tokens that are written and scanned

A string that is written in quotes is scanned as itself, whatever its characters
(`next?_writeString`): each of them is written as one escape or as itself, and none is half of a
surrogate pair. An integer is scanned as itself provided that nothing after it goes on with the
number (`next?_writeInt`). `Scans` says which tokens a text without spaces consists of. It is stated
from the front, so that what a text consists of is found by putting one token before another, and a
text that consists of tokens is scanned as these (`Scans.scan?_eq`). -/

namespace Mend

namespace Json

namespace Token

/-! ## Strings -/

/-- A character in a string is read back as its code. -/
theorem stringBody?_writeChar (c : Char) (fuel : Nat) (rest : List Char) :
    stringBody? (fuel + 1) (writeChar c ++ rest)
      = (stringBody? fuel rest).map fun r => (c.toNat :: r.1, r.2) := by
  by_cases hquote : c = '"'
  · subst hquote
    rfl
  by_cases hslash : c = '\\'
  · subst hslash
    rfl
  have hplain : (c == '"') = false ∧ (c == '\\') = false :=
    ⟨beq_eq_false_iff_ne.2 hquote, beq_eq_false_iff_ne.2 hslash⟩
  by_cases hcontrol : c.toNat < 32
  · by_cases hshort : c.toNat = 8 ∨ c.toNat = 12 ∨ c.toNat = 10 ∨ c.toNat = 13 ∨ c.toNat = 9
    · rcases hshort with h | h | h | h | h <;> simp [writeChar, hplain, h, stringBody?, escape?]
    · -- a control character without a letter of its own has four digits
      simp only [not_or] at hshort
      have hread : Hex.read? (Hex.write 4 c.toNat) = some c.toNat :=
        Hex.read?_write 4 c.toNat (by omega)
      have hdigits : ∃ d₁ d₂ d₃ d₄, Hex.write 4 c.toNat = [d₁, d₂, d₃, d₄] :=
        ⟨_, _, _, _, rfl⟩
      obtain ⟨d₁, d₂, d₃, d₄, hdigits⟩ := hdigits
      rw [hdigits] at hread
      simp [writeChar, hplain, hshort, hcontrol, hdigits, stringBody?, escape?, hread]
  · have hshort : c.toNat ≠ 8 ∧ c.toNat ≠ 12 ∧ c.toNat ≠ 10 ∧ c.toNat ≠ 13 ∧ c.toNat ≠ 9 := by
      omega
    have hwrite : writeChar c = [c] := by simp [writeChar, hplain, hshort, hcontrol]
    rw [hwrite, List.singleton_append, stringBody?]
    · rw [if_neg hcontrol]
    · exact fun h => hquote h
    · exact fun h => hslash h

/-- What is written in quotes is read up to the closing quote. -/
theorem stringBody?_flatMap (cs : List Char) (fuel : Nat) (rest : List Char)
    (h : cs.length < fuel) :
    stringBody? fuel (cs.flatMap writeChar ++ '"' :: rest) = some (cs.map Char.toNat, rest) := by
  induction cs generalizing fuel with
  | nil =>
      obtain ⟨fuel, rfl⟩ := Nat.exists_eq_succ_of_ne_zero (Nat.ne_of_gt h)
      rfl
  | cons c cs ih =>
      obtain ⟨fuel, rfl⟩ := Nat.exists_eq_succ_of_ne_zero (Nat.ne_of_gt (Nat.zero_lt_of_lt h))
      rw [List.flatMap_cons, List.append_assoc, stringBody?_writeChar,
        ih fuel (Nat.lt_of_succ_lt_succ h)]
      rfl

/-- No character is half of a surrogate pair. -/
theorem not_half_toNat (c : Char) : isHighHalf c.toNat = false ∧ isLowHalf c.toNat = false := by
  have hvalid : c.toNat < 0xD800 ∨ 0xDFFF < c.toNat ∧ c.toNat < 0x110000 := c.valid
  simp only [isHighHalf, isLowHalf, Bool.and_eq_false_iff, decide_eq_false_iff_not]
  omega

theorem decode?_map_toNat (cs : List Char) : decode? (cs.map Char.toNat) = some cs := by
  induction cs with
  | nil => rfl
  | cons c cs ih =>
      obtain ⟨hhigh, hlow⟩ := not_half_toNat c
      cases cs with
      | nil => simp [decode?, hhigh, hlow]
      | cons d cs =>
          simp only [List.map_cons] at ih ⊢
          simp [decode?, hhigh, hlow, ih]

theorem length_le_flatMap_writeChar (cs : List Char) :
    cs.length ≤ (cs.flatMap writeChar).length := by
  induction cs with
  | nil => exact Nat.le_refl 0
  | cons c cs ih =>
      have hone : 1 ≤ (writeChar c).length := by
        unfold writeChar
        repeat' split
        all_goals simp
      rw [List.flatMap_cons, List.length_append, List.length_cons]
      omega

theorem next?_writeString (s : String) (rest : List Char) :
    next? (writeString s ++ rest) = some (.str (some s), rest) := by
  have hfuel : s.toList.length < (s.toList.flatMap writeChar ++ '"' :: rest).length + 1 := by
    rw [List.length_append]
    exact Nat.lt_succ_of_le (Nat.le_add_right_of_le (length_le_flatMap_writeChar s.toList))
  rw [writeString, List.cons_append, List.append_assoc, List.singleton_append, next?,
    stringBody?_flatMap _ _ _ hfuel]
  simp [decode?_map_toNat]

/-! ## Numbers -/

/-- Nothing at the start of the text goes on with a number before it. -/
def StopsNumber (cs : List Char) : Prop :=
  ∀ c ∈ cs.head?, Decimal.isDigit c = false ∧ c ≠ '.' ∧ c ≠ 'e' ∧ c ≠ 'E'

variable {rest : List Char}

theorem fraction?_of_stops (h : StopsNumber rest) : fraction? rest = some (false, rest) := by
  cases rest with
  | nil => rfl
  | cons c rest =>
      rw [fraction?]
      rintro _ ⟨⟩
      exact (h '.' rfl).2.1 rfl

theorem exponent?_of_stops (h : StopsNumber rest) : exponent? rest = some (false, rest) := by
  cases rest with
  | nil => rfl
  | cons c rest =>
      obtain ⟨-, -, he, hE⟩ := h c rfl
      simp [exponent?, he, hE]

theorem digits_write (n : Nat) (h : StopsNumber rest) :
    digits (Decimal.write n ++ rest) = (Decimal.write n, rest) := by
  have hall := Decimal.allDigits_write n
  have hstops : Decimal.StopsDigits rest := fun c hc => (h c hc).1
  rw [digits, Decimal.takeWhile_append hall hstops, Decimal.dropWhile_append hall hstops]

/-- A natural number is read back with its sign, unless it is a zero with a minus sign. -/
theorem unsigned?_write (negative : Bool) (n : Nat) (hn : negative = true → n ≠ 0)
    (h : StopsNumber rest) :
    unsigned? negative (Decimal.write n ++ rest)
      = some (.int (if negative then -(n : Int) else n), rest) := by
  have hne : (Decimal.write n).isEmpty = false := by simpa using Decimal.write_ne_nil n
  have hlead : ((Decimal.write n).head? == some '0' && decide (1 < (Decimal.write n).length))
      = false := by
    by_cases hzero : (Decimal.write n).head? = some '0'
    · simp [Decimal.head?_write n hzero]
    · simp [beq_eq_false_iff_ne.2 hzero]
  have hsign : (negative && n == 0) = false := by
    cases negative with
    | false => rfl
    | true => simpa using hn rfl
  rw [unsigned?, digits_write n h]
  simp only [hne, hlead, Bool.or_self, Bool.false_eq_true, if_false, fraction?_of_stops h,
    exponent?_of_stops h, Decimal.read_write, hsign]

/-- A text that begins with a digit begins with a number. -/
theorem next?_of_isDigit {c : Char} (h : Decimal.isDigit c = true) (cs : List Char) :
    next? (c :: cs) = unsigned? false (c :: cs) := by
  unfold next?
  split
  all_goals first
    | rfl
    | next heq =>
        cases heq
        exact absurd h (by decide)

theorem next?_writeInt (n : Int) (h : StopsNumber rest) :
    next? (Decimal.writeInt n ++ rest) = some (.int n, rest) := by
  by_cases hneg : n < 0
  · have hsign : -(n.natAbs : Int) = n := by omega
    have hread := unsigned?_write true n.natAbs (fun _ => by omega) h
    rw [Decimal.writeInt, if_pos hneg]
    show unsigned? true (Decimal.write n.natAbs ++ rest) = _
    rw [hread, if_pos rfl, hsign]
  · have hsign : (n.natAbs : Int) = n := by omega
    have hread := unsigned?_write false n.natAbs nofun h
    obtain ⟨c, cs, hc⟩ := List.exists_cons_of_ne_nil (Decimal.write_ne_nil n.natAbs)
    have hdigit : Decimal.isDigit c = true :=
      Decimal.allDigits_write n.natAbs c (hc ▸ List.mem_cons_self)
    rw [Decimal.writeInt, if_neg hneg]
    rw [hc] at hread ⊢
    rw [List.cons_append, next?_of_isDigit hdigit, ← List.cons_append, hread, if_neg (by simp),
      hsign]

/-! ## Texts of tokens -/

/-- A text consists of the given tokens, with no space between them. -/
inductive Scans : List Char → List Token → Prop where
  | done : Scans [] []
  | next {c : Char} {cs rest : List Char} {t : Token} {ts : List Token}
      (begins : isSpace c = false) (token : next? (c :: cs) = some (t, rest))
      (shorter : rest.length ≤ cs.length) (more : Scans rest ts) : Scans (c :: cs) (t :: ts)

variable {ts : List Token}

theorem Scans.scanAux_eq {cs : List Char} (h : Scans cs ts) {fuel : Nat} (hf : cs.length ≤ fuel) :
    scanAux fuel cs = some ts := by
  induction h generalizing fuel with
  | done => cases fuel <;> rfl
  | @next c cs rest t ts begins token shorter more ih =>
      obtain ⟨fuel, rfl⟩ := Nat.exists_eq_succ_of_ne_zero (n := fuel) (by
        rw [List.length_cons] at hf
        omega)
      have hskip : (c :: cs).dropWhile isSpace = c :: cs :=
        List.dropWhile_cons_of_neg (by simp [begins])
      rw [scanAux, hskip]
      simp only [token, ih (Nat.le_trans shorter (Nat.le_of_succ_le_succ hf)), Option.map_some]

/-- A text that consists of tokens is scanned as these. -/
theorem Scans.scan?_eq {cs : List Char} (h : Scans cs ts) : scan? cs = some ts :=
  h.scanAux_eq (Nat.le_refl _)

/-- A mark that is written before a text of tokens. -/
theorem Scans.mark {c : Char} {t : Token} (h : Scans rest ts)
    (token : next? (c :: rest) = some (t, rest)) (begins : isSpace c = false) :
    Scans (c :: rest) (t :: ts) :=
  Scans.next begins token (Nat.le_refl _) h

/-- A word that is written before a text of tokens. -/
theorem Scans.word {word : List Char} {t : Token} (h : Scans rest ts)
    (token : next? (word ++ rest) = some (t, rest)) (hne : word ≠ [])
    (begins : ∀ c ∈ word.head?, isSpace c = false) : Scans (word ++ rest) (t :: ts) := by
  obtain ⟨c, cs, rfl⟩ := List.exists_cons_of_ne_nil hne
  exact Scans.next (begins c rfl) token (by simp) h

theorem Scans.str (s : String) (h : Scans rest ts) :
    Scans (writeString s ++ rest) (.str (some s) :: ts) :=
  h.word (next?_writeString s rest) (List.cons_ne_nil _ _) (by rintro _ ⟨⟩; rfl)

theorem isSpace_of_isDigit {c : Char} (h : Decimal.isDigit c = true) : isSpace c = false := by
  rw [Bool.eq_false_iff]
  intro hspace
  simp only [isSpace, Bool.or_eq_true, beq_iff_eq] at hspace
  rcases hspace with ((rfl | rfl) | rfl) | rfl <;> exact absurd h (by decide)

theorem Scans.int (n : Int) (h : Scans rest ts) (hstops : StopsNumber rest) :
    Scans (Decimal.writeInt n ++ rest) (.int n :: ts) := by
  have hall := Decimal.allDigits_write n.natAbs
  refine h.word (next?_writeInt n hstops) ?_ ?_
  · unfold Decimal.writeInt
    split
    · exact List.cons_ne_nil _ _
    · exact Decimal.write_ne_nil _
  · unfold Decimal.writeInt
    split
    · rintro _ ⟨⟩
      rfl
    · exact fun c hc => isSpace_of_isDigit (hall c (List.mem_of_mem_head? hc))

end Token

end Json

end Mend
