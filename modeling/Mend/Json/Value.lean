import Mend.Json.Token

set_option autoImplicit false

/-! # JSON values

A value is read from the tokens of a text and written as text without blanks. Values may nest
to any depth. -/

namespace Mend

/-- A JSON value as it was written: members stay in order, repeated ones included. -/
inductive Json where
  | null
  | bool (b : Bool)
  | int (n : Int)
  | real
  /-- A string; `none` where it denotes no text. -/
  | str (s : Option String)
  | arr (items : List Json)
  | obj (members : List (Option String × Json))
deriving Inhabited

namespace Json

/-! ## Reading -/

mutual

/-- The value at the start of the tokens, and what follows it. -/
def value? : Nat → List Token → Option (Json × List Token)
  | 0, _ => none
  | fuel + 1, ts =>
    match ts with
    | .null :: rest => some (.null, rest)
    | .bool b :: rest => some (.bool b, rest)
    | .int n :: rest => some (.int n, rest)
    | .real :: rest => some (.real, rest)
    | .str s :: rest => some (.str s, rest)
    | .openBracket :: .closeBracket :: rest => some (.arr [], rest)
    | .openBracket :: rest => (items? fuel rest).map fun r => (.arr r.1, r.2)
    | .openBrace :: .closeBrace :: rest => some (.obj [], rest)
    | .openBrace :: rest => (members? fuel rest).map fun r => (.obj r.1, r.2)
    | _ => none

/-- At least one item, up to the closing bracket. -/
def items? : Nat → List Token → Option (List Json × List Token)
  | 0, _ => none
  | fuel + 1, ts =>
    match value? fuel ts with
    | some (v, .closeBracket :: rest) => some ([v], rest)
    | some (v, .comma :: rest) => (items? fuel rest).map fun r => (v :: r.1, r.2)
    | _ => none

/-- At least one member, up to the closing brace. -/
def members? : Nat → List Token → Option (List (Option String × Json) × List Token)
  | 0, _ => none
  | fuel + 1, ts =>
    match ts with
    | .str key :: .colon :: rest =>
      match value? fuel rest with
      | some (v, .closeBrace :: rest) => some ([(key, v)], rest)
      | some (v, .comma :: rest) => (members? fuel rest).map fun r => ((key, v) :: r.1, r.2)
      | _ => none
    | _ => none

end

/-- The value that all of the tokens make up. -/
def ofTokens? (ts : List Token) : Option Json :=
  match value? (2 * ts.length + 1) ts with
  | some (v, []) => some v
  | _ => none

/-- The value that a text denotes. -/
def ofText? (s : String) : Option Json := (Token.scan? s.toList).bind ofTokens?

/-! ## Writing -/

mutual

/-- The characters of a value. A string that denotes no text is written as `null`, and so is a
    number that is no integer; neither stands in a value that the program makes. -/
def chars : Json → List Char
  | .null => "null".toList
  | .bool b => (if b then "true" else "false").toList
  | .int n => Decimal.writeInt n
  | .real => "null".toList
  | .str none => "null".toList
  | .str (some s) => Token.writeString s
  | .arr items => '[' :: (itemChars items ++ [']'])
  | .obj members => '\x7b' :: (memberChars members ++ ['\x7d'])

/-- The characters of items, with commas between them. -/
def itemChars : List Json → List Char
  | [] => []
  | [v] => chars v
  | v :: rest => chars v ++ ',' :: itemChars rest

/-- The characters of members, with commas between them. -/
def memberChars : List (Option String × Json) → List Char
  | [] => []
  | [(key, v)] => Token.writeString (key.getD "") ++ ':' :: chars v
  | (key, v) :: rest =>
    Token.writeString (key.getD "") ++ ':' :: chars v ++ ',' :: memberChars rest

end

/-- The text of a value. -/
def text (v : Json) : String := String.ofList v.chars

/-! ## Records -/

/-- The value of one member, and how often the member stands there. -/
def lookUp (members : List (Option String × Json)) (key : String) : Option Json × Nat :=
  let found := members.filter fun m => m.1 == some key
  (found.head?.map Prod.snd, found.length)

/-- The fields of a record, in the order of their names: an object in which each name stands at
    most once, other members being passed over; or an array of the first fields in order. -/
def fields? (names : List String) : Json → Option (List (Option Json))
  | .obj members =>
    let found := names.map (lookUp members)
    if members.all (fun m => m.1.isSome) && found.all (fun f => f.2 ≤ 1) then
      some (found.map Prod.fst)
    else none
  | .arr items =>
    if items.length ≤ names.length then
      some (items.map some ++ List.replicate (names.length - items.length) none)
    else none
  | _ => none

/-- A record as an object with the given fields. -/
def record (fields : List (String × Json)) : Json :=
  .obj (fields.map fun f => (some f.1, f.2))

end Json

end Mend
