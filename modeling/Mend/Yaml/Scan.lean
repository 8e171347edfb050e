import Mend.Yaml.Layout

set_option autoImplicit false

/-! # From YAML text to tokens

There are no directives, anchors, aliases, tags and block scalars: the characters that begin
them cannot begin a token. -/

namespace Mend

namespace Yaml

/-- A layout and the place up to which the text has been read. -/
structure Scan where
  layout : Layout
  cursor : Cursor
deriving Inhabited

namespace Scan

/-- Pass over blanks, comments and, with them, over whole lines, which may begin with a byte
    order mark. Outside brackets a key or an entry may start after a line break, but there no tab
    may stand before it. -/
def skipSpace : Nat → Scan → Scan
  | 0, s => s
  | fuel + 1, s =>
    let tabs := s.layout.inBrackets || !s.layout.fresh
    let c := s.cursor.skipByteOrderMark.skipWhile fun x => x == ' ' || (tabs && x == '\t')
    let c := if c.rest.head? == some '#' then c.skipWhile fun x => !isBreak x else c
    match c.rest with
    | [] => { s with cursor := c }
    | x :: _ =>
      if isBreak x then
        let fresh := s.layout.fresh || !s.layout.inBrackets
        skipSpace fuel ⟨s.layout.withFresh fresh, c.advance⟩
      else { s with cursor := c }

/-- Go on with another layout, if there is one, after some characters. -/
def after (s : Scan) (count : Nat) : Option Layout → Except Fault Scan
  | none => .error .malformed
  | some layout => .ok ⟨layout, Cursor.advanceBy count s.cursor⟩

/-- The characters that no plain scalar can begin with, beside brackets and commas. -/
def indicators : List Char := ['#', '&', '*', '!', '|', '>', '\'', '"', '%', '@', '\x60']

/-- Whether a plain scalar can begin with the given characters. A dash needs more behind it, and
    a question mark or colon does too and begins none inside brackets. -/
def beginsPlain (inBrackets : Bool) : List Char → Bool
  | [] => false
  | c :: rest =>
    if c == '-' then !rest.head?.any isPad
    else if c == '?' || c == ':' then !inBrackets && !standsAlone rest
    else
      !isSpace c && !isBracketing c && !indicators.contains c

/-- Read a plain scalar. -/
def plain (s : Scan) : Except Fault Scan :=
  match s.layout.markSpot? s.cursor with
  | none => .error .malformed
  | some l =>
    (plainScalar l.inBrackets l.leastColumn s.cursor).map fun r =>
      ⟨l.emit (.scalar .plain (String.ofList r.text)) |>.withFresh r.freshLine, r.next⟩

/-- Read a scalar in quotes. -/
def quoted (s : Scan) : Except Fault Scan :=
  match s.layout.markSpot? s.cursor with
  | none => .error .malformed
  | some l =>
    (quotedScalar s.cursor).map fun r =>
      ⟨l.emit (.scalar .quoted (String.ofList r.1)) |>.withFresh false, r.2⟩

/-- Read the token at a place where no space stands. -/
def token (s : Scan) : Except Fault Scan :=
  let l := s.layout
  let c := s.cursor
  if c.atMarks '-' then s.after 3 (l.documentMark? .hyphens)
  else if c.atMarks '.' then s.after 3 (l.documentMark? .dots)
  else
    match c.rest with
    | '[' :: _ => s.after 1 (l.openBracket? c .openBracket)
    | '\x7b' :: _ => s.after 1 (l.openBracket? c .openBrace)
    | ']' :: _ => s.after 1 (l.closeBracket? .closeBracket)
    | '\x7d' :: _ => s.after 1 (l.closeBracket? .closeBrace)
    | ',' :: _ => s.after 1 l.comma?
    | '\'' :: _ => s.quoted
    | '"' :: _ => s.quoted
    | x :: rest =>
      if x == '-' && standsAlone rest then s.after 1 (l.dash? c)
      else if x == '?' && (l.inBrackets || standsAlone rest) then s.after 1 (l.question? c)
      else if x == ':' && (l.inBrackets || standsAlone rest) then s.after 1 (l.colon? c)
      else if beginsPlain l.inBrackets (x :: rest) then s.plain
      else .error .malformed
    | [] => .error .malformed

/-- Read on to the end of the text, or as far as it can be read. -/
def tokens : Nat → Scan → List Token
  | 0, s => s.layout.broken s.cursor .malformed
  | fuel + 1, s =>
    let t := skipSpace (s.cursor.rest.length + 1) s
    if t.layout.missesKey t.cursor then s.layout.broken s.cursor .malformed
    else
      let t : Scan := { t with layout := t.layout.closeBlocks t.cursor.column }
      if t.cursor.rest.isEmpty then
        t.layout.finish?.getD (s.layout.broken s.cursor .malformed)
      else
        match t.token with
        | .error f => s.layout.broken s.cursor f
        | .ok t => tokens fuel t

end Scan

/-- The tokens of a text. Every token takes at least one character. -/
def Token.scan (cs : List Char) : List Token :=
  if cs.all isAllowed then Scan.tokens (cs.length + 1) ⟨Layout.start, Cursor.start cs⟩
  else [.fault .malformed]

end Yaml

end Mend
