import Mend.Yaml.Scan

set_option autoImplicit false

/-! # YAML documents

A document is a tree of scalars, lists and tables. Tables keep their entries in order, repeated
keys included; what a scalar denotes is for the reader of the document to say. A text holds at
most one document. -/

namespace Mend

namespace Yaml

/-- A tree of scalars, lists and tables. -/
inductive Node where
  | scalar (style : Style) (text : String)
  | list (items : List Node)
  | table (entries : List (Node × Node))
deriving Inhabited

namespace Node

/-- What stands where nothing is written. -/
def empty : Node := .scalar .plain ""

/-- Whether no node stands before the given tokens, the first of which may be among `blank`. -/
def isMissing (blank : List Token) : List Token → Bool
  | [] => true
  | t :: _ => blank.contains t

/-- Why no document goes on with the given tokens. -/
def faultAt : List Token → Fault
  | .fault f :: _ => f
  | _ => .malformed

mutual

/-- The node at the start of the tokens, and what follows it. Blocks can only stand outside
    brackets, and as the value of a key a list can stand in the column of its table. -/
def node (blocks sameColumn : Bool) : Nat → List Token → Except Fault (Node × List Token)
  | 0, _ => .error .malformed
  | fuel + 1, ts =>
    match ts with
    | .scalar style text :: rest => .ok (.scalar style text, rest)
    | .openBracket :: rest => (bracketItems true fuel rest).map fun r => (.list r.1, r.2)
    | .openBrace :: rest => (braceEntries true fuel rest).map fun r => (.table r.1, r.2)
    | .openList :: rest =>
      if blocks then (listItems fuel rest).map fun r => (.list r.1, r.2)
      else .error .malformed
    | .openTable :: rest =>
      if blocks then (tableEntries fuel rest).map fun r => (.table r.1, r.2)
      else .error .malformed
    | .dash :: rest =>
      if sameColumn then (dashItems fuel (.dash :: rest)).map fun r => (.list r.1, r.2)
      else .error .malformed
    | ts => .error (faultAt ts)

/-- The node at the start of the tokens, if it is not missing. -/
def nodeUnless (blank : List Token) (blocks sameColumn : Bool) :
    Nat → List Token → Except Fault (Node × List Token)
  | 0, _ => .error .malformed
  | fuel + 1, ts =>
    if isMissing blank ts then .ok (empty, ts) else node blocks sameColumn fuel ts

/-- The items of a list up to its end. -/
def listItems : Nat → List Token → Except Fault (List Node × List Token)
  | 0, _ => .error .malformed
  | fuel + 1, ts =>
    match ts with
    | .closeBlock :: rest => .ok ([], rest)
    | .dash :: rest =>
      match nodeUnless [.dash, .closeBlock] true false fuel rest with
      | .error f => .error f
      | .ok (v, rest) => (listItems fuel rest).map fun r => (v :: r.1, r.2)
    | ts => .error (faultAt ts)

/-- The items of a list in the column of a table, up to what is no dash. -/
def dashItems : Nat → List Token → Except Fault (List Node × List Token)
  | 0, _ => .error .malformed
  | fuel + 1, ts =>
    match ts with
    | .dash :: rest =>
      match nodeUnless [.dash, .key, .colon, .closeBlock] true false fuel rest with
      | .error f => .error f
      | .ok (v, rest) => (dashItems fuel rest).map fun r => (v :: r.1, r.2)
    | ts => .ok ([], ts)

/-- The entries of a table up to its end. -/
def tableEntries : Nat → List Token → Except Fault (List (Node × Node) × List Token)
  | 0, _ => .error .malformed
  | fuel + 1, ts =>
    match ts with
    | .closeBlock :: rest => .ok ([], rest)
    | .key :: rest =>
      match nodeUnless [.key, .colon, .closeBlock] true true fuel rest with
      | .error f => .error f
      | .ok (k, .colon :: rest) =>
        match nodeUnless [.key, .colon, .closeBlock] true true fuel rest with
        | .error f => .error f
        | .ok (v, rest) => (tableEntries fuel rest).map fun r => ((k, v) :: r.1, r.2)
      | .ok (k, rest) => (tableEntries fuel rest).map fun r => ((k, empty) :: r.1, r.2)
    | ts => .error (faultAt ts)

/-- The key after its mark in brackets. Where no key is written, the token in its place is passed
    over. -/
def bracketKey : Nat → List Token → Except Fault (Node × List Token)
  | 0, _ => .error .malformed
  | fuel + 1, ts =>
    if isMissing [.colon, .comma, .closeBracket] ts then .ok (empty, ts.drop 1)
    else node false false fuel ts

/-- The items in brackets up to the closing bracket, with commas between them and perhaps after
    the last. An item with a key is a table of one entry. -/
def bracketItems (first : Bool) : Nat → List Token → Except Fault (List Node × List Token)
  | 0, _ => .error .malformed
  | fuel + 1, ts =>
    let items : List Token → Except Fault (List Node × List Token) := fun ts =>
      match ts with
      | .closeBracket :: rest => .ok ([], rest)
      | .key :: rest =>
        match bracketKey fuel rest with
        | .error f => .error f
        | .ok (k, .colon :: rest) =>
          match nodeUnless [.comma, .closeBracket] false false fuel rest with
          | .error f => .error f
          | .ok (v, rest) =>
            (bracketItems false fuel rest).map fun r => (.table [(k, v)] :: r.1, r.2)
        | .ok (k, rest) =>
          (bracketItems false fuel rest).map fun r => (.table [(k, empty)] :: r.1, r.2)
      | ts =>
        match node false false fuel ts with
        | .error f => .error f
        | .ok (v, rest) => (bracketItems false fuel rest).map fun r => (v :: r.1, r.2)
    if first then items ts
    else
      match ts with
      | .closeBracket :: rest => .ok ([], rest)
      | .comma :: rest => items rest
      | ts => .error (faultAt ts)

/-- The entries in braces up to the closing brace, with commas between them and perhaps after
    the last. A node without a key before it is a key without a value. -/
def braceEntries (first : Bool) : Nat → List Token → Except Fault (List (Node × Node) × List Token)
  | 0, _ => .error .malformed
  | fuel + 1, ts =>
    let entries : List Token → Except Fault (List (Node × Node) × List Token) := fun ts =>
      match ts with
      | .closeBrace :: rest => .ok ([], rest)
      | .key :: rest =>
        match nodeUnless [.colon, .comma, .closeBrace] false false fuel rest with
        | .error f => .error f
        | .ok (k, .colon :: rest) =>
          match nodeUnless [.comma, .closeBrace] false false fuel rest with
          | .error f => .error f
          | .ok (v, rest) => (braceEntries false fuel rest).map fun r => ((k, v) :: r.1, r.2)
        | .ok (k, rest) => (braceEntries false fuel rest).map fun r => ((k, empty) :: r.1, r.2)
      | ts =>
        match node false false fuel ts with
        | .error f => .error f
        | .ok (k, rest) => (braceEntries false fuel rest).map fun r => ((k, empty) :: r.1, r.2)
    if first then entries ts
    else
      match ts with
      | .closeBrace :: rest => .ok ([], rest)
      | .comma :: rest => entries rest
      | ts => .error (faultAt ts)

end

/-! ## Documents -/

/-- The document at the start of the tokens, and what follows it. Nothing written is the empty
    document. -/
def document (ts : List Token) : Except Fault (Node × List Token) :=
  let fuel := 4 * ts.length + 8
  let r : Except Fault (Node × List Token) :=
    match ts with
    | [] => .ok (empty, [])
    | .hyphens :: rest => nodeUnless [.hyphens, .dots] true false fuel rest
    | ts => node true false fuel ts
  match r with
  | .ok (_, .fault f :: _) => .error f
  | r => r

/-- Why a text is refused for what follows its document, if it is. A second document is read as
    far as it goes before it is refused. -/
def faultAfter? (ts : List Token) : Option Fault :=
  match ts.dropWhile (· == .dots) with
  | [] => none
  | .hyphens :: rest =>
    match document (.hyphens :: rest) with
    | .error f => some f
    | .ok _ => some .malformed
  | ts => some (faultAt ts)

/-- What a text denotes, by what its document does. Where the document denotes nothing, what
    follows it is not looked at. -/
def readText {α : Type} (denotes? : Node → Option α) (text : String) : Except Fault α :=
  match document (Token.scan text.toList) with
  | .error f => .error f
  | .ok (v, rest) =>
    match denotes? v, faultAfter? rest with
    | none, _ => .error .malformed
    | some _, some f => .error f
    | some a, none => .ok a

end Node

end Yaml

end Mend
