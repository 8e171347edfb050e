import Mend.Text.Hex
import Mend.Yaml.Room

set_option autoImplicit false

/-! # The scalars of YAML text

A scalar is plain or in quotes, and may run over several lines. Space inside a scalar is folded:
a single line break counts as a blank, more of them as one less. -/

namespace Mend

namespace Yaml

/-- How a scalar is written. Only a plain one can denote something other than text. -/
inductive Style where
  | plain
  | quoted
deriving DecidableEq, Inhabited

/-! ## Space inside scalars -/

/-- What space inside a scalar stands for. -/
def fold (space : List Char) : List Char :=
  match space.filter isBreak with
  | [] => space
  | ['\n'] => [' ']
  | '\n' :: more => more
  | breaks => breaks

/-- The room after space. A blank that stands for a line break counts as a character. -/
def Room.space? (r : Room) (space : List Char) : Option Room :=
  if space.filter isBreak == ['\n'] then some (r.put ' ') else r.fit? (fold space)

/-- Whether a tab stands where only blanks may indent a line. -/
def tabIndents (least : Nat) : Bool → Nat → List Char → Bool
  | _, _, [] => false
  | fresh, column, c :: rest =>
    if isBreak c then tabIndents least true 0 rest
    else (fresh && column < least && c == '\t') || tabIndents least fresh (column + 1) rest

/-! ## Plain scalars -/

/-- Whether a character ends a plain scalar inside brackets. -/
def isBracketing (c : Char) : Bool := [',', '[', ']', '\x7b', '\x7d'].contains c

/-- The characters of a plain scalar up to the next space or the end of the scalar, and whether a
    misplaced colon comes then: inside brackets none may touch a bracket, a comma or a question
    mark. -/
def plainWord (inBrackets : Bool) : List Char → List Char × Bool
  | [] => ([], false)
  | c :: rest =>
    if isSpace c then ([], false)
    else if inBrackets && c == ':' &&
        rest.head?.any (fun d => isBracketing d || d == '?') then ([], true)
    else if c == ':' && standsAlone rest then ([], false)
    else if inBrackets && isBracketing c then ([], false)
    else
      let r := plainWord inBrackets rest
      (c :: r.1, r.2)

/-- A plain scalar, and whether the place after it is at the start of a line. -/
structure PlainScalar where
  text : List Char
  freshLine : Bool
  next : Cursor

/-- The rest of a plain scalar, after some space. Outside brackets its lines are indented by at
    least the given number of columns. -/
def plainFrom (inBrackets : Bool) (least : Nat) :
    Nat → Room → List Char → Cursor → Except Fault PlainScalar
  | 0, _, _, _ => .error .malformed
  | fuel + 1, room, space, c =>
    let ended : PlainScalar := ⟨[], space.any isBreak, c⟩
    if c.atDocumentMark || c.rest.head? == some '#' then .ok ended
    else
      match plainWord inBrackets c.rest with
      | ([], misplaced) => if misplaced then .error .malformed else .ok ended
      | (word, misplaced) =>
        match room.space? space with
        | none => .error .noRoom
        | some room =>
          let text := fold space ++ word
          let c := Cursor.advanceBy word.length c
          let space := c.rest.takeWhile isSpace
          if misplaced then .error .malformed
          else if space.isEmpty then .ok ⟨text, false, c⟩
          else if tabIndents least false c.column space then .error .malformed
          else
            let c := c.skipWhile isSpace
            if !inBrackets && c.column < least then .ok ⟨text, space.any isBreak, c⟩
            else
              (plainFrom inBrackets least fuel (word.foldl Room.put room) space c).map fun r =>
                { r with text := text ++ r.text }

/-- The plain scalar at a place. -/
def plainScalar (inBrackets : Bool) (least : Nat) (c : Cursor) : Except Fault PlainScalar :=
  plainFrom inBrackets least (c.rest.length + 1) Room.start [] c

/-! ## Quoted scalars -/

/-- A scalar in quotes and the place after it, with some text put before it. -/
def precede (text : List Char) (r : List Char × Cursor) : List Char × Cursor :=
  (text ++ r.1, r.2)

/-- The rest of a scalar in single quotes, a pair of which stands for one. -/
def singleFrom : Nat → Room → Cursor → Except Fault (List Char × Cursor)
  | 0, _, _ => .error .malformed
  | fuel + 1, room, c =>
    if c.atDocumentMark then .error .malformed
    else
      match c.rest with
      | [] => .error .malformed
      | '\'' :: '\'' :: _ =>
        (singleFrom fuel (room.put '\'') (Cursor.advanceBy 2 c)).map (precede ['\''])
      | '\'' :: _ => .ok ([], c.advance)
      | x :: rest =>
        if isSpace x then
          let space := (x :: rest).takeWhile isSpace
          match room.space? space with
          | none => .error .noRoom
          | some room =>
            (singleFrom fuel room (c.skipWhile isSpace)).map (precede (fold space))
        else (singleFrom fuel (room.put x) c.advance).map (precede [x])

/-- The character that an escape of one letter stands for. -/
def escapes : List (Char × Nat) :=
  [('0', 0), ('a', 7), ('b', 8), ('t', 9), ('\t', 9), ('n', 10), ('v', 11), ('f', 12), ('r', 13),
    ('e', 27), (' ', 32), ('"', 34), ('/', 47), ('\\', 92), ('N', 0x85), ('_', 0xA0),
    ('L', 0x2028), ('P', 0x2029)]

/-- How many hexadecimal digits follow the letter of an escape. -/
def escapeDigits : List (Char × Nat) := [('x', 2), ('u', 4), ('U', 8)]

/-- The character that an escape stands for, and the length of the escape after its backslash. -/
def escaped? : List Char → Option (Char × Nat)
  | [] => none
  | c :: rest =>
    match escapes.lookup c, escapeDigits.lookup c with
    | some n, _ => some (Char.ofNat n, 1)
    | none, none => none
    | none, some width =>
      let digits := rest.take width
      if digits.length < width then none
      else
        match Hex.read? digits with
        | none => none
        | some n => if n.isValidChar then some (Char.ofNat n, width + 1) else none

/-- The rest of a scalar in double quotes. A backslash at the end of a line hides the break. -/
def doubleFrom : Nat → Room → Cursor → Except Fault (List Char × Cursor)
  | 0, _, _ => .error .malformed
  | fuel + 1, room, c =>
    if c.atDocumentMark then .error .malformed
    else
      match c.rest with
      | [] => .error .malformed
      | '"' :: _ => .ok ([], c.advance)
      | '\\' :: rest =>
        if rest.head?.any isBreak then
          let breaks := ((rest.drop 1).takeWhile isSpace).filter isBreak
          match room.fit? breaks with
          | none => .error .noRoom
          | some room =>
            (doubleFrom fuel room ((Cursor.advanceBy 2 c).skipWhile isSpace)).map (precede breaks)
        else
          match escaped? rest with
          | none => .error .malformed
          | some (x, width) =>
            (doubleFrom fuel (room.put x) (Cursor.advanceBy (width + 1) c)).map (precede [x])
      | x :: rest =>
        if isSpace x then
          let space := (x :: rest).takeWhile isSpace
          match room.space? space with
          | none => .error .noRoom
          | some room =>
            (doubleFrom fuel room (c.skipWhile isSpace)).map (precede (fold space))
        else (doubleFrom fuel (room.put x) c.advance).map (precede [x])

/-- The scalar in quotes at a place. -/
def quotedScalar (c : Cursor) : Except Fault (List Char × Cursor) :=
  match c.rest with
  | '\'' :: rest => singleFrom (rest.length + 1) Room.start c.advance
  | '"' :: rest => doubleFrom (rest.length + 1) Room.start c.advance
  | _ => .error .malformed

end Yaml

end Mend
