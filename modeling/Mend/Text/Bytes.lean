set_option autoImplicit false

/-! # Texts in bytes

The length of a text in bytes, and cuts at byte positions. A cut through the middle of a character
does not exist; one between two texts gives the texts back (`takeBytes?_append`,
`dropBytes?_append`). -/

namespace Mend

/-- The bytes that characters take up. -/
def byteCount : List Char → Nat
  | [] => 0
  | c :: rest => c.utf8Size + byteCount rest

/-- A text up to a byte. -/
def takeBytes? : Nat → List Char → Option (List Char)
  | 0, _ => some []
  | _ + 1, [] => none
  | n + 1, c :: rest =>
    if c.utf8Size ≤ n + 1 then (takeBytes? (n + 1 - c.utf8Size) rest).map (c :: ·) else none

/-- A text from a byte on. -/
def dropBytes? : Nat → List Char → Option (List Char)
  | 0, cs => some cs
  | _ + 1, [] => none
  | n + 1, c :: rest => if c.utf8Size ≤ n + 1 then dropBytes? (n + 1 - c.utf8Size) rest else none

/-- A text between two bytes. -/
def cut? (cs : List Char) (start stop : Nat) : Option (List Char) :=
  (dropBytes? start cs).bind (takeBytes? (stop - start))

theorem takeBytes?_cons (c : Char) (n : Nat) (rest : List Char) :
    takeBytes? (c.utf8Size + n) (c :: rest) = (takeBytes? n rest).map (c :: ·) := by
  have pos := c.utf8Size_pos
  obtain ⟨m, h⟩ : ∃ m, c.utf8Size + n = m + 1 := ⟨c.utf8Size + n - 1, by omega⟩
  rw [h, takeBytes?, if_pos (by omega), ← h, Nat.add_sub_cancel_left]

theorem dropBytes?_cons (c : Char) (n : Nat) (rest : List Char) :
    dropBytes? (c.utf8Size + n) (c :: rest) = dropBytes? n rest := by
  have pos := c.utf8Size_pos
  obtain ⟨m, h⟩ : ∃ m, c.utf8Size + n = m + 1 := ⟨c.utf8Size + n - 1, by omega⟩
  rw [h, dropBytes?, if_pos (by omega), ← h, Nat.add_sub_cancel_left]

/-- Where one text is followed by another, the bytes of the first are the first. -/
theorem takeBytes?_append (as bs : List Char) :
    takeBytes? (byteCount as) (as ++ bs) = some as := by
  induction as with
  | nil => simp [byteCount, takeBytes?]
  | cons a as ih => rw [byteCount, List.cons_append, takeBytes?_cons, ih]; rfl

/-- Where one text is followed by another, the second comes after the bytes of the first. -/
theorem dropBytes?_append (as bs : List Char) :
    dropBytes? (byteCount as) (as ++ bs) = some bs := by
  induction as with
  | nil => simp [byteCount, dropBytes?]
  | cons a as ih => rw [byteCount, List.cons_append, dropBytes?_cons, ih]

end Mend
