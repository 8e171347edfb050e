set_option autoImplicit false

/-! # Places in YAML text

The layout of YAML text carries meaning, so reading it keeps track of lines and columns. -/

namespace Mend

namespace Yaml

/-! ## Characters -/

/-- Whether a character may stand in YAML text at all. -/
def isAllowed (c : Char) : Bool :=
  c == '\t' || c == '\n' || c == '\r' || (0x20 ≤ c.toNat && c.toNat ≤ 0x7E) || c.toNat == 0x85 ||
    (0xA0 ≤ c.toNat && c.toNat != 0xFFFE && c.toNat != 0xFFFF)

/-- Whether a character ends a line, once the line breaks have been unified. -/
def isBreak (c : Char) : Bool := c == '\n' || c.toNat == 0x2028 || c.toNat == 0x2029

/-- Whether a character pads out a line. -/
def isPad (c : Char) : Bool := c == ' ' || c == '\t'

/-- Whether a character pads out a line or ends it. -/
def isSpace (c : Char) : Bool := isPad c || isBreak c

/-- Whether a character is the mark that some texts carry at their start. -/
def isByteOrderMark (c : Char) : Bool := c.toNat == 0xFEFF

/-- Whether the text goes on with a space or not at all, so that an indicator before it stands
    by itself. -/
def standsAlone : List Char → Bool
  | [] => true
  | c :: _ => isSpace c

/-- The text with one way to write line breaks: carriage returns, with a line feed or without,
    and next-line characters become line feeds. -/
def unifyBreaks : List Char → List Char
  | '\r' :: '\n' :: rest => '\n' :: unifyBreaks rest
  | c :: rest => (if c == '\r' || c.toNat == 0x85 then '\n' else c) :: unifyBreaks rest
  | [] => []

/-! ## Cursors -/

/-- A place in the text: what follows, and where it stands. -/
structure Cursor where
  rest : List Char
  /-- The number of bytes before, where every line break counts as written in one way. -/
  index : Nat
  line : Nat
  column : Nat
deriving Inhabited

namespace Cursor

/-- The start of a text. -/
def start (cs : List Char) : Cursor := ⟨unifyBreaks cs, 0, 0, 0⟩

/-- Pass over one character. -/
def advance (c : Cursor) : Cursor :=
  match c.rest with
  | [] => c
  | x :: rest =>
    if isBreak x then ⟨rest, c.index + x.utf8Size, c.line + 1, 0⟩
    else ⟨rest, c.index + x.utf8Size, c.line, c.column + 1⟩

/-- Pass over a number of characters. -/
def advanceBy : Nat → Cursor → Cursor
  | 0, c => c
  | n + 1, c => advanceBy n c.advance

/-- Pass over characters as long as they satisfy a condition. -/
def skipWhile (p : Char → Bool) (c : Cursor) : Cursor := advanceBy (c.rest.takeWhile p).length c

/-- Pass over a byte order mark at the start of a line. It takes up a column. -/
def skipByteOrderMark (c : Cursor) : Cursor :=
  if c.column == 0 && c.rest.head?.any isByteOrderMark then c.advance else c

/-- Whether three marks of one kind stand by themselves at the start of a line. -/
def atMarks (mark : Char) (c : Cursor) : Bool :=
  c.column == 0 && c.rest.take 3 == [mark, mark, mark] && standsAlone (c.rest.drop 3)

/-- Whether a document starts or ends here. -/
def atDocumentMark (c : Cursor) : Bool := c.atMarks '-' || c.atMarks '.'

end Cursor

end Yaml

end Mend
