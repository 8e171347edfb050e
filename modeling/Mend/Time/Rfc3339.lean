import Mend.Text.Blank
import Mend.Text.Decimal
import Mend.Time.Instant

set_option autoImplicit false

/-! # The text of instants, after RFC 3339

An instant is written in universal time with as many groups of three fraction digits as it
needs. Reading is lenient: any offset, numbers without leading zeros, white space between the
parts, a blank for the `T`, and more digits of a fraction than count. -/

namespace Mend

namespace Instant

/-! ## Writing -/

/-- A year: four digits, or a sign and at least four digits where it needs one. -/
def writeYear (year : Int) : List Char :=
  if 0 ≤ year ∧ year ≤ 9999 then Decimal.fixed 4 year.toNat
  else
    let digits := Decimal.write year.natAbs
    (if year < 0 then '-' else '+') :: (List.replicate (4 - digits.length) '0' ++ digits)

/-- The fraction of a second, in 0, 3, 6 or 9 digits. -/
def writeFraction (nano : Nat) : List Char :=
  if nano = 0 then []
  else if nano % 1000000 = 0 then '.' :: Decimal.fixed 3 (nano / 1000000)
  else if nano % 1000 = 0 then '.' :: Decimal.fixed 6 (nano / 1000)
  else '.' :: Decimal.fixed 9 nano

/-- The characters of the written form. -/
def chars (t : Instant) : List Char :=
  writeYear t.date.year ++ '-' :: Decimal.fixed 2 t.date.month ++
    '-' :: Decimal.fixed 2 t.date.day ++
    'T' :: Decimal.fixed 2 t.time.hour ++ ':' :: Decimal.fixed 2 t.time.minute ++
    ':' :: Decimal.fixed 2 t.time.second ++ writeFraction t.time.nano ++ ['Z']

/-- The written form. -/
def text (t : Instant) : String := String.ofList t.chars

/-! ## Reading -/

/-- A number of at least one digit, at most as many as `limit` allows. -/
def readNumber? (limit : Nat) (cs : List Char) : Option (Nat × List Char) :=
  let digits := (cs.take limit).takeWhile Decimal.isDigit
  if digits.isEmpty then none else some (Decimal.read digits, cs.drop digits.length)

/-- A year: four digits at most, or after a sign any number of them. -/
def readYear? (cs : List Char) : Option (Int × List Char) :=
  match cs with
  | '-' :: rest => (readNumber? rest.length rest).map fun r => (-(r.1 : Int), r.2)
  | '+' :: rest => (readNumber? rest.length rest).map fun r => ((r.1 : Int), r.2)
  | _ => (readNumber? 4 cs).map fun r => ((r.1 : Int), r.2)

/-- A separator after any white space, and a number of up to two digits after more. -/
def readPart? (separator : Char) (cs : List Char) : Option (Nat × List Char) :=
  match trimStart cs with
  | c :: rest => if c = separator then readNumber? 2 (trimStart rest) else none
  | [] => none

/-- A fraction of a second, if there is one, in nanoseconds. Digits after the ninth are passed
    over. -/
def readFraction? (cs : List Char) : Option (Nat × List Char) :=
  match cs with
  | '.' :: rest =>
    (readNumber? 9 rest).map fun r =>
      (r.1 * Nat.pow 10 (9 - (rest.length - r.2.length)), r.2.dropWhile Decimal.isDigit)
  | _ => some (0, cs)

/-- The minutes by which local time is ahead of universal time. -/
def readOffset? (cs : List Char) : Option (Int × List Char) :=
  let ahead (sign : Int) (cs : List Char) : Option (Int × List Char) :=
    match cs with
    | h1 :: h2 :: rest =>
      match rest.dropWhile fun c => c == ':' || isBlank c with
      | m1 :: m2 :: rest =>
        if [h1, h2, m1, m2].all Decimal.isDigit && m1 ≤ '5' then
          let hours := Decimal.read [h1, h2]
          if hours < 24 then some (sign * (hours * 60 + Decimal.read [m1, m2] : Nat), rest)
          else none
        else none
      | _ => none
    | _ => none
  match cs with
  | 'Z' :: rest => some (0, rest)
  | 'z' :: rest => some (0, rest)
  | '+' :: rest => ahead 1 rest
  | '-' :: rest => ahead (-1) rest
  | '−' :: rest => ahead (-1) rest
  | u :: t :: c :: rest =>
    if (u == 'U' || u == 'u') && (t == 'T' || t == 't') && (c == 'C' || c == 'c') then
      some (0, rest)
    else none
  | _ => none

/-- A date. -/
def readDate? (cs : List Char) : Option (Date × List Char) :=
  (readYear? (trimStart cs)).bind fun (year, cs) =>
    (readPart? '-' cs).bind fun (month, cs) =>
      (readPart? '-' cs).bind fun (day, cs) =>
        let date : Date := ⟨year, month, day⟩
        if date.InRange then some (date, cs) else none

/-- A time of day. -/
def readTime? (cs : List Char) : Option (TimeOfDay × List Char) :=
  (readNumber? 2 (trimStart cs)).bind fun (hour, cs) =>
    (readPart? ':' cs).bind fun (minute, cs) =>
      (readPart? ':' cs).bind fun (second, cs) =>
        (readFraction? cs).map fun (nano, cs) => (⟨hour, minute, second, nano⟩, cs)

/-- Whether a character may stand between the date and the time. -/
def isDateEnd (c : Char) : Bool := c == 'T' || c == 't' || c == ' '

/-- Read an instant. -/
def ofChars? (cs : List Char) : Option Instant :=
  (readDate? cs).bind fun (date, cs) =>
    match cs with
    | [] => none
    | c :: cs =>
      if isDateEnd c then
        (readTime? cs).bind fun (time, cs) =>
          (readOffset? (trimStart cs)).bind fun (offset, cs) =>
            if (trimStart cs).isEmpty then ofLocal? date time offset else none
      else none

/-- Read an instant. -/
def ofText? (s : String) : Option Instant := ofChars? s.toList

end Instant

end Mend
