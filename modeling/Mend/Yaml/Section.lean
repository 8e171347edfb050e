import Mend.Yaml.Datum

set_option autoImplicit false

/-! # Sections: tables whose entries are looked up by name -/

namespace Mend

namespace Yaml

/-- The entries of a table by name, in order and perhaps with repeated names. -/
abbrev Section (α : Type) := List (String × α)

namespace Section

variable {α β : Type}

/-- The values of all entries of a name. -/
def valuesOf (s : Section α) (name : String) : List α :=
  (s.filter fun entry => entry.1 == name).map Prod.snd

/-- Read the entry of a name, and do without it where there is none. A repeated entry cannot be
    read. -/
def readOr (s : Section α) (name : String) (missing : β) (read : α → Option β) : Option β :=
  match s.valuesOf name with
  | [] => some missing
  | [v] => read v
  | _ => none

/-- Read the entry of a name, which there must be. -/
def read? (s : Section α) (name : String) (read : α → Option β) : Option β :=
  match s.valuesOf name with
  | [v] => read v
  | _ => none

end Section

/-- The section that the entries of a table make up. Every key must be a scalar, and its text
    is the name. -/
def Section.ofNodes? : List (Node × Node) → Option (Section Node)
  | [] => some []
  | (.scalar _ name, v) :: rest => (ofNodes? rest).map ((name, v) :: ·)
  | _ => none

/-- The section that a node makes up. Nothing written counts as a table without entries. -/
def Node.section? : Node → Option (Section Node)
  | .table entries => Section.ofNodes? entries
  | .scalar .plain s => if s.isEmpty then some [] else none
  | _ => none

/-- The section that the entries of a table make up. Every key must be text. -/
def Section.ofData? : List (Datum × Datum) → Option (Section Datum)
  | [] => some []
  | (.text name, v) :: rest => (ofData? rest).map ((name, v) :: ·)
  | _ => none

/-- The section that a datum makes up. Nothing counts as a table without entries. -/
def Datum.section? : Datum → Option (Section Datum)
  | .table entries => Section.ofData? entries
  | .null => some []
  | _ => none

/-- The items that a datum holds. Nothing counts as a list without items. -/
def Datum.items? : Datum → Option (List Datum)
  | .list items => some items
  | .null => some []
  | _ => none

end Yaml

end Mend
