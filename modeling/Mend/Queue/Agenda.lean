import Mend.Capped

set_option autoImplicit false

/-! # Agendas: items by the tick on which they fall due

An agenda keeps its items sorted by deadline, and items of one deadline in the order in which
they were put down. What is due is therefore always the front of the list. -/

namespace Mend

/-- Items waiting for their deadlines, earliest first. -/
structure Agenda (α : Type) where
  entries : List (Tick × α)
deriving DecidableEq, Inhabited

namespace Agenda

variable {α : Type}

/-- The agenda without items. -/
def empty : Agenda α := ⟨[]⟩

/-- Put an entry behind all entries that fall due no later. -/
def insertEntry (deadline : Tick) (item : α) : List (Tick × α) → List (Tick × α)
  | [] => [(deadline, item)]
  | e :: rest =>
    if e.1 ≤ deadline then e :: insertEntry deadline item rest else (deadline, item) :: e :: rest

/-- Put down an item for the given tick. -/
def schedule (a : Agenda α) (deadline : Tick) (item : α) : Agenda α :=
  ⟨insertEntry deadline item a.entries⟩

/-- The items that fall due by `now`, in the order of their deadlines. -/
def due (a : Agenda α) (now : Tick) : List α :=
  (a.entries.takeWhile fun e => e.1 ≤ now).map Prod.snd

/-- The agenda without the items that fall due by `now`. -/
def later (a : Agenda α) (now : Tick) : Agenda α :=
  ⟨a.entries.dropWhile fun e => e.1 ≤ now⟩

/-- Take out what falls due by `now`. -/
def drain (a : Agenda α) (now : Tick) : List α × Agenda α := (a.due now, a.later now)

/-- The earliest deadline. -/
def next? (a : Agenda α) : Option Tick := a.entries.head?.map Prod.fst

/-- The number of items. -/
def size (a : Agenda α) : Nat := a.entries.length

/-- Whether nothing is put down. -/
def isEmpty (a : Agenda α) : Bool := a.entries.isEmpty

/-- Drop everything. Returns the number of items dropped. -/
def clear (a : Agenda α) : Nat × Agenda α := (a.size, empty)

@[simp] theorem length_insertEntry (deadline : Tick) (item : α) (es : List (Tick × α)) :
    (insertEntry deadline item es).length = es.length + 1 := by
  induction es with
  | nil => rfl
  | cons e rest ih =>
    unfold insertEntry
    split
    · simp [ih]
    · rfl

@[simp] theorem size_schedule (a : Agenda α) (deadline : Tick) (item : α) :
    (a.schedule deadline item).size = a.size + 1 :=
  length_insertEntry deadline item a.entries

/-- Draining neither loses nor invents an item. -/
theorem length_due_add_size_later (a : Agenda α) (now : Tick) :
    (a.due now).length + (a.later now).size = a.size := by
  simp only [due, later, size, List.length_map, ← List.length_append,
    List.takeWhile_append_dropWhile]

end Agenda

end Mend
