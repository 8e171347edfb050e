import Mend.Yaml.Scalar

set_option autoImplicit false

/-! # The layout of YAML text

Columns say which lists and tables a line belongs to. A layout keeps the tokens read so far
together with the columns of the open blocks, and adds tokens for the blocks that a column opens
and closes. A key is only known by the colon after it, so the layout remembers where the last
possible key began and inserts the token for it later. -/

namespace Mend

namespace Yaml

/-- A token of YAML text. -/
inductive Token where
  /-- The start of a list whose entries have dashes in one column. -/
  | openList
  /-- The start of a table whose keys stand in one column. -/
  | openTable
  /-- The end of such a list or table. -/
  | closeBlock
  | dash
  /-- The start of a key. -/
  | key
  | colon
  | openBracket
  | closeBracket
  | openBrace
  | closeBrace
  | comma
  | scalar (style : Style) (text : String)
  /-- Three hyphens, where a document starts. -/
  | hyphens
  /-- Three dots, where a document ends. -/
  | dots
  /-- The place up to which the text could be read. -/
  | fault (f : Fault)
deriving DecidableEq, Inhabited

/-- A place where a key may have begun. -/
structure KeySpot where
  /-- The number of tokens before it. -/
  tokensBefore : Nat
  index : Nat
  line : Nat
  column : Nat
  /-- Whether nothing but a key can stand there. -/
  required : Bool
deriving DecidableEq, Inhabited

/-- What is known before the next token is read. -/
structure Layout where
  /-- The tokens so far, the last one first. -/
  tokens : List Token
  /-- The columns of the open blocks, the innermost first. -/
  columns : List Nat
  /-- Where a key may have begun. -/
  spot : Option KeySpot
  /-- The same for what lies around each open bracket, the innermost bracket first. -/
  outerSpots : List (Option KeySpot)
  /-- Whether a key or an entry may start here. -/
  fresh : Bool
deriving Inhabited

/-- Whether the key begun at a spot can end at the given place: on the same line, at most 1024
    bytes on. -/
def KeySpot.reaches (k : KeySpot) (c : Cursor) : Bool :=
  k.line == c.line && c.index ≤ k.index + 1024

namespace Layout

/-- The layout at the start of a text. -/
def start : Layout := ⟨[], [], none, [], true⟩

/-- Whether a bracket is open. Columns carry no meaning then. -/
def inBrackets (l : Layout) : Bool := !l.outerSpots.isEmpty

/-- The least column for further lines of a scalar. -/
def leastColumn (l : Layout) : Nat := (l.columns.head?.map (· + 1)).getD 0

/-- Add a token. -/
def emit (l : Layout) (t : Token) : Layout := { l with tokens := t :: l.tokens }

/-- Say whether a key or an entry may start next. -/
def withFresh (l : Layout) (fresh : Bool) : Layout := { l with fresh }

/-! ## Blocks -/

/-- Add tokens behind the first `n`. -/
def insertAt (n : Nat) (new tokens : List Token) : List Token :=
  tokens.take (tokens.length - n) ++ new.reverse ++ tokens.drop (tokens.length - n)

/-- Open a block if none is open in this column or further in, with its token behind the first
    `n`. -/
def openBlock (l : Layout) (column n : Nat) (t : Token) : Layout :=
  if l.inBrackets || l.columns.head?.any (column ≤ ·) then l
  else { l with columns := column :: l.columns, tokens := insertAt n [t] l.tokens }

/-- Close the blocks that lie further in than a column. -/
def closeBlocks (l : Layout) (column : Nat) : Layout :=
  if l.inBrackets then l
  else
    { l with
      columns := l.columns.dropWhile fun c => column < c
      tokens := (l.columns.takeWhile fun c => column < c).map (fun _ => .closeBlock) ++ l.tokens }

/-- Close every block. -/
def closeAll (l : Layout) : Layout :=
  if l.inBrackets then l
  else { l with columns := [], tokens := l.columns.map (fun _ => .closeBlock) ++ l.tokens }

/-! ## Keys -/

/-- Give up the spot of a possible key, which fails where a key is required. -/
def dropSpot? (l : Layout) : Option Layout :=
  match l.spot with
  | none => some l
  | some k => if k.required then none else some { l with spot := none }

/-- Remember a place where a key may begin. In the column of the innermost block nothing else
    can. -/
def markSpot? (l : Layout) (c : Cursor) : Option Layout :=
  if l.fresh then
    l.dropSpot?.map fun l =>
      { l with
        spot := some
          { tokensBefore := l.tokens.length
            index := c.index
            line := c.line
            column := c.column
            required := !l.inBrackets && l.columns.head? == some c.column } }
  else some l

/-- The layout after the colon that ends the key begun at a spot. -/
def endKey (l : Layout) (k : KeySpot) : Layout :=
  let l : Layout := { l with tokens := insertAt k.tokensBefore [.key] l.tokens, spot := none }
  let l := l.openBlock k.column k.tokensBefore .openTable
  l.withFresh false |>.emit .colon

/-! ## Indicators -/

/-- A dash before an entry. -/
def dash? (l : Layout) (c : Cursor) : Option Layout :=
  if l.inBrackets then (l.dropSpot?).map fun l => l.withFresh true |>.emit .dash
  else if l.fresh then
    (l.openBlock c.column l.tokens.length .openList).dropSpot?.map fun l =>
      l.withFresh true |>.emit .dash
  else none

/-- A question mark before a key. -/
def question? (l : Layout) (c : Cursor) : Option Layout :=
  if l.inBrackets || l.fresh then
    (l.openBlock c.column l.tokens.length .openTable).dropSpot?.map fun l =>
      l.withFresh (!l.inBrackets) |>.emit .key
  else none

/-- A colon before a value that has no key on its line. -/
def loneColon? (l : Layout) (c : Cursor) : Option Layout :=
  if l.inBrackets || l.fresh then
    let l := l.openBlock c.column l.tokens.length .openTable
    some (l.withFresh (!l.inBrackets) |>.emit .colon)
  else none

/-- A colon before a value. It ends the key before it, if that can reach so far. -/
def colon? (l : Layout) (c : Cursor) : Option Layout :=
  match l.spot with
  | none => l.loneColon? c
  | some k =>
    if k.reaches c then some (l.endKey k)
    else if k.required then none
    else { l with spot := none }.loneColon? c

/-- An opening bracket or brace. -/
def openBracket? (l : Layout) (c : Cursor) (t : Token) : Option Layout :=
  (l.markSpot? c).map fun l =>
    { l with
      tokens := t :: l.tokens
      outerSpots := l.spot :: l.outerSpots
      spot := none
      fresh := true }

/-- A closing bracket or brace. -/
def closeBracket? (l : Layout) (t : Token) : Option Layout :=
  l.dropSpot?.map fun l =>
    match l.outerSpots with
    | [] => { l with tokens := t :: l.tokens, fresh := false }
    | spot :: outerSpots => { l with tokens := t :: l.tokens, fresh := false, spot, outerSpots }

/-- A comma between items. -/
def comma? (l : Layout) : Option Layout :=
  l.dropSpot?.map fun l => l.withFresh true |>.emit .comma

/-- A mark at the start or the end of a document. -/
def documentMark? (l : Layout) (t : Token) : Option Layout :=
  l.closeAll.dropSpot?.map fun l => l.withFresh false |>.emit t

/-! ## Ends -/

/-- The end of the text. -/
def finish? (l : Layout) : Option (List Token) :=
  l.closeAll.dropSpot?.map fun l => l.tokens.reverse

/-- The places where keys may have begun, in the open brackets too. -/
def spots (l : Layout) : List KeySpot := (l.spot :: l.outerSpots).filterMap id

/-- Whether a key that is required can no longer end. -/
def missesKey (l : Layout) (c : Cursor) : Bool := l.spots.any fun k => k.required && !k.reaches c

/-- The tokens where the text cannot be read beyond a place. Those from the first open key on are
    not settled by then. -/
def broken (l : Layout) (c : Cursor) (f : Fault) : List Token :=
  let pending := l.spots.filter (·.reaches c)
  let settled := (pending.map KeySpot.tokensBefore).foldl min l.tokens.length
  l.tokens.reverse.take settled ++ [.fault f]

end Layout

end Yaml

end Mend
