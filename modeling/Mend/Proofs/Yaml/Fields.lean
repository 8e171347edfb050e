import Mend.Yaml.Section

set_option autoImplicit false

/-! # Records read from sections

A record is read from a section field by field: each field is read from the entry of its name, and
keeps what the record holds where there is none (`fillAll?`). Entry by entry the same comes out:
each entry overwrites the field of its name and one of another name overwrites nothing, where no
field may be written twice (`Section.overwrite?`). The induction is on the entries. An entry is
taken out of its place among the fields by the fact that fields do not touch each other
(`RecordField.Apart`). -/

namespace Mend

namespace Yaml

/-! ## Entries -/

namespace Section

variable {α β : Type} {s s' : Section α} {name k : String} {v : α}

end Section

/-! ## Fields -/

/-- A field of a record: the name that it is written under, how its value is read, and how the
    record holds it. -/
structure RecordField (α : Type) where
  name : String
  Value : Type
  read? : Node → Option Value
  get : α → Value
  set : Value → α → α
  set_get : ∀ a, set (get a) a = a

namespace RecordField

variable {α : Type}

/-- A record that is all one field. -/
def whole (name : String) (read? : Node → Option α) : RecordField α :=
  ⟨name, α, read?, id, fun x _ => x, fun _ => rfl⟩

/-- Two fields that do not touch each other. -/
structure Apart (f g : RecordField α) : Prop where
  name_ne : f.name ≠ g.name
  get_set : ∀ y a, f.get (g.set y a) = f.get a
  set_comm : ∀ x y a, f.set x (g.set y a) = g.set y (f.set x a)

variable {f g : RecordField α} {s : Section Node} {v : Node} {k : String}

end RecordField

section Fields

variable {α : Type} {fields : List (RecordField α)} {f : RecordField α} {s s' : Section Node}
  {v : Node} {k : String}

/-- What an entry makes of a record: it sets the field of its name, if its value can be read. An
    entry of no field changes nothing. -/
def change? (fields : List (RecordField α)) (entry : String × Node) : Option (α → α) :=
  match fields.find? fun f => f.name = entry.1 with
  | none => some id
  | some f => (f.read? entry.2).map f.set

/-- The record changed by entries one after the other, if all of them can be read. -/
def changeAll? (fields : List (RecordField α)) (s : Section Node) (a : α) : Option α :=
  (s.mapM (change? fields)).map fun changes => changes.foldl (fun a change => change a) a

/-- Whether no field is written twice. -/
def Section.Unrepeated (s : Section Node) (fields : List (RecordField α)) : Prop :=
  ∀ f ∈ fields, (s.valuesOf f.name).length ≤ 1

instance (s : Section Node) (fields : List (RecordField α)) : Decidable (s.Unrepeated fields) :=
  inferInstanceAs (Decidable (∀ f ∈ fields, _))

/-- The record overwritten by a section, in which no field may be written twice. -/
def Section.overwrite? (s : Section Node) (fields : List (RecordField α)) (a : α) : Option α :=
  if s.Unrepeated fields then changeAll? fields s a else none

/-- The record overwritten by the section that a node makes up. -/
def Node.overwrite? (v : Node) (fields : List (RecordField α)) (a : α) : Option α :=
  v.section?.bind fun s => s.overwrite? fields a

/-! ## Field by field -/

namespace Section

end Section

end Fields

end Yaml

end Mend
