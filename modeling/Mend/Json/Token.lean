import Mend.Text.Decimal
import Mend.Text.Hex

set_option autoImplicit false

/-! # The tokens of JSON text

Text is split into brackets, separators, words, numbers and strings, with blanks between them.
A number counts as an integer only if it is written without fraction and exponent and is not
`-0`. A string whose escapes name half of a surrogate pair denotes no text. -/

namespace Mend

namespace Json

/-- A token of JSON text. -/
inductive Token where
  | openBrace
  | closeBrace
  | openBracket
  | closeBracket
  | colon
  | comma
  | null
  | bool (b : Bool)
  | int (n : Int)
  /-- A number that is no integer by the way it is written. -/
  | real
  /-- A string; `none` where it denotes no text. -/
  | str (s : Option String)
deriving DecidableEq, Inhabited

namespace Token

/-! ## Strings -/

/-- The code of one escaped character, and what follows. -/
def escape? : List Char → Option (Nat × List Char)
  | '"' :: rest => some (34, rest)
  | '\\' :: rest => some (92, rest)
  | '/' :: rest => some (47, rest)
  | 'b' :: rest => some (8, rest)
  | 'f' :: rest => some (12, rest)
  | 'n' :: rest => some (10, rest)
  | 'r' :: rest => some (13, rest)
  | 't' :: rest => some (9, rest)
  | 'u' :: a :: b :: c :: d :: rest => (Hex.read? [a, b, c, d]).map fun n => (n, rest)
  | _ => none

/-- The codes of the characters up to the closing quote, and what follows it. Characters below
    the blank must be escaped. -/
def stringBody? : Nat → List Char → Option (List Nat × List Char)
  | 0, _ => none
  | fuel + 1, cs =>
    match cs with
    | [] => none
    | '"' :: rest => some ([], rest)
    | '\\' :: rest =>
      match escape? rest with
      | none => none
      | some (n, rest) => (stringBody? fuel rest).map fun r => (n :: r.1, r.2)
    | c :: rest =>
      if c.toNat < 32 then none
      else (stringBody? fuel rest).map fun r => (c.toNat :: r.1, r.2)

/-- Whether a code is the first half of a surrogate pair. -/
def isHighHalf (n : Nat) : Bool := 0xD800 ≤ n && n ≤ 0xDBFF

/-- Whether a code is the second half of a surrogate pair. -/
def isLowHalf (n : Nat) : Bool := 0xDC00 ≤ n && n ≤ 0xDFFF

/-- The characters that the codes denote, two halves of a pair making one. -/
def decode? : List Nat → Option (List Char)
  | [] => some []
  | [n] => if isHighHalf n || isLowHalf n then none else some [Char.ofNat n]
  | n :: m :: rest =>
    if isHighHalf n then
      if isLowHalf m then
        (decode? rest).map (Char.ofNat (0x10000 + (n - 0xD800) * 0x400 + (m - 0xDC00)) :: ·)
      else none
    else if isLowHalf n then none
    else (decode? (m :: rest)).map (Char.ofNat n :: ·)

/-! ## Numbers -/

/-- The digits at the start of the text, and what follows. -/
def digits (cs : List Char) : List Char × List Char :=
  (cs.takeWhile Decimal.isDigit, cs.dropWhile Decimal.isDigit)

/-- Pass over an exponent, if there is one. Says whether there was. -/
def exponent? (cs : List Char) : Option (Bool × List Char) :=
  match cs with
  | c :: rest =>
    if c == 'e' || c == 'E' then
      let rest :=
        match rest with
        | '+' :: r => r
        | '-' :: r => r
        | r => r
      if (digits rest).1.isEmpty then none else some (true, (digits rest).2)
    else some (false, cs)
  | [] => some (false, [])

/-- Pass over a fraction, if there is one. Says whether there was. -/
def fraction? (cs : List Char) : Option (Bool × List Char) :=
  match cs with
  | '.' :: rest => if (digits rest).1.isEmpty then none else some (true, (digits rest).2)
  | _ => some (false, cs)

/-- A number without its sign. -/
def unsigned? (negative : Bool) (cs : List Char) : Option (Token × List Char) :=
  let (whole, rest) := digits cs
  if whole.isEmpty || (whole.head? == some '0' && 1 < whole.length) then none
  else
    match fraction? rest with
    | none => none
    | some (hasFraction, rest) =>
      match exponent? rest with
      | none => none
      | some (hasExponent, rest) =>
        let n := Decimal.read whole
        if hasFraction || hasExponent || (negative && n == 0) then some (.real, rest)
        else some (.int (if negative then -(n : Int) else n), rest)

/-! ## Scanning -/

/-- Whether a character may stand between tokens. -/
def isSpace (c : Char) : Bool := c == ' ' || c == '\n' || c == '\r' || c == '\t'

/-- The token at the start of the text, and what follows. -/
def next? (cs : List Char) : Option (Token × List Char) :=
  match cs with
  | '\x7b' :: rest => some (.openBrace, rest)
  | '\x7d' :: rest => some (.closeBrace, rest)
  | '[' :: rest => some (.openBracket, rest)
  | ']' :: rest => some (.closeBracket, rest)
  | ':' :: rest => some (.colon, rest)
  | ',' :: rest => some (.comma, rest)
  | '"' :: rest =>
    (stringBody? (rest.length + 1) rest).map fun r => (.str ((decode? r.1).map String.ofList), r.2)
  | 'n' :: 'u' :: 'l' :: 'l' :: rest => some (.null, rest)
  | 't' :: 'r' :: 'u' :: 'e' :: rest => some (.bool true, rest)
  | 'f' :: 'a' :: 'l' :: 's' :: 'e' :: rest => some (.bool false, rest)
  | '-' :: rest => unsigned? true rest
  | cs => unsigned? false cs

/-- The tokens of a text of at most as many characters as `fuel`. -/
def scanAux : Nat → List Char → Option (List Token)
  | fuel, cs =>
    match cs.dropWhile isSpace with
    | [] => some []
    | c :: rest =>
      match fuel with
      | 0 => none
      | fuel + 1 =>
        match next? (c :: rest) with
        | none => none
        | some (t, rest) => (scanAux fuel rest).map (t :: ·)

/-- The tokens of a text. -/
def scan? (cs : List Char) : Option (List Token) := scanAux cs.length cs

/-! ## Writing -/

/-- A character inside a string. -/
def writeChar (c : Char) : List Char :=
  if c == '"' then ['\\', '"']
  else if c == '\\' then ['\\', '\\']
  else if c.toNat = 8 then ['\\', 'b']
  else if c.toNat = 12 then ['\\', 'f']
  else if c.toNat = 10 then ['\\', 'n']
  else if c.toNat = 13 then ['\\', 'r']
  else if c.toNat = 9 then ['\\', 't']
  else if c.toNat < 32 then '\\' :: 'u' :: Hex.write 4 c.toNat
  else [c]

/-- A string in quotes. -/
def writeString (s : String) : List Char := '"' :: (s.toList.flatMap writeChar ++ ['"'])

end Token

end Json

end Mend
