import Mend.Yaml.Node
import Mend.Yaml.Number

set_option autoImplicit false

/-! # YAML data: documents whose scalars have types

A plain scalar denotes nothing, a truth value, an integer or a real number where it reads as one,
and text otherwise. Integers have 64 bits: those of up to 128 bits are refused, and longer ones
count as real numbers. Keys are data too, and no table has two equal ones. -/

namespace Mend

namespace Yaml

/-- A document whose scalars have types. -/
inductive Datum where
  | null
  | bool (b : Bool)
  | int (n : Int)
  | real (r : Real)
  | text (s : String)
  | list (items : List Datum)
  | table (entries : List (Datum × Datum))
deriving Inhabited

/-- Whether a plain scalar denotes nothing. -/
def isNull (s : String) : Bool := s.isEmpty || ["~", "null", "Null", "NULL"].contains s

/-- The truth value that a plain scalar denotes. -/
def bool? (s : String) : Option Bool :=
  if ["true", "True", "TRUE"].contains s then some true
  else if ["false", "False", "FALSE"].contains s then some false
  else none

/-- Whether an integer has a number of bits, with or without sign. -/
def hasBits (bits : Nat) (n : Int) : Bool :=
  -(Nat.pow 2 (bits - 1) : Int) ≤ n && n < (Nat.pow 2 bits : Int)

namespace Datum

/-- What a plain scalar denotes that is nothing, no truth value and no integer. -/
def realOrText (s : String) : Datum :=
  match real? s.toList with
  | some r => .real r
  | none => .text s

/-- What a scalar denotes, unless it is refused. -/
def ofScalar? : Style → String → Option Datum
  | .quoted, s => some (.text s)
  | .plain, s =>
    if isNull s then some .null
    else
      match bool? s, integer? s.toList with
      | some b, _ => some (.bool b)
      | none, some n =>
        if hasBits 64 n then some (.int n)
        else if hasBits 128 n then none
        else some (realOrText s)
      | none, none => some (realOrText s)

/-! ## Equality -/

mutual

/-- Whether two data are equal. The order of the entries of a table does not count. -/
def same : Datum → Datum → Bool
  | .null, .null => true
  | .bool a, .bool b => a == b
  | .int a, .int b => a == b
  | .real a, .real b => a == b
  | .text a, .text b => a == b
  | .list as, .list bs => sameItems as bs
  | .table as, .table bs => as.length == bs.length && sameEntries as bs
  | _, _ => false

/-- Whether two lists have equal items. -/
def sameItems : List Datum → List Datum → Bool
  | [], [] => true
  | a :: as, b :: bs => same a b && sameItems as bs
  | _, _ => false

/-- Whether every entry of one table is in another. -/
def sameEntries : List (Datum × Datum) → List (Datum × Datum) → Bool
  | [], _ => true
  | (k, v) :: rest, bs => bs.any (fun b => same k b.1 && same v b.2) && sameEntries rest bs

end

instance : BEq Datum := ⟨same⟩

/-- Whether two of the data are equal. -/
def repeats : List Datum → Bool
  | [] => false
  | d :: rest => rest.any (d == ·) || repeats rest

/-! ## Reading -/

mutual

/-- The datum that a document denotes, its lists and tables nested at most as deep as the first
    number says. -/
def ofNode? : Nat → Node → Option Datum
  | _, .scalar style s => ofScalar? style s
  | 0, .list _ => none
  | depth + 1, .list items => (ofItems? depth items).map .list
  | 0, .table _ => none
  | depth + 1, .table entries =>
    match ofEntries? depth entries with
    | none => none
    | some entries => if repeats (entries.map Prod.fst) then none else some (.table entries)

/-- The data that the items of a list denote. -/
def ofItems? : Nat → List Node → Option (List Datum)
  | _, [] => some []
  | depth, v :: rest =>
    match ofNode? depth v, ofItems? depth rest with
    | some v, some rest => some (v :: rest)
    | _, _ => none

/-- The data that the entries of a table denote. -/
def ofEntries? : Nat → List (Node × Node) → Option (List (Datum × Datum))
  | _, [] => some []
  | depth, (k, v) :: rest =>
    match ofNode? depth k, ofNode? depth v, ofEntries? depth rest with
    | some k, some v, some rest => some ((k, v) :: rest)
    | _, _, _ => none

end

/-- The datum that a text denotes. Lists and tables nest at most 128 deep. -/
def ofText? (text : String) : Option Datum := (Node.readText (ofNode? 128) text).toOption

end Datum

end Yaml

end Mend
