import Mend.Text.Decimal
import Mend.Text.Hex

set_option autoImplicit false

/-! # The numbers that plain scalars denote

Integers are written in decimal, or after `0x`, `0o` and `0b` in the bases 16, 8 and 2. A
decimal number with leading zeros is no number but text. Real numbers are those of the doubles,
and are only told apart from each other and from text. -/

namespace Mend

namespace Yaml

/-! ## Integers -/

/-- The base that a scalar names, and the digits after it. -/
def base? : List Char → Option (Nat × List Char)
  | '0' :: 'x' :: digits => some (16, digits)
  | '0' :: 'o' :: digits => some (8, digits)
  | '0' :: 'b' :: digits => some (2, digits)
  | _ => none

/-- The number written by digits of a base. -/
def inBase? (base : Nat) (digits : List Char) : Option Nat :=
  if digits.isEmpty then none
  else
    digits.foldl (fun n c =>
      match n, Hex.value? c with
      | some n, some d => if d < base then some (base * n + d) else none
      | _, _ => none) (some 0)

/-- The scalar without a sign. -/
def unsigned (cs : List Char) : List Char :=
  match cs with
  | '+' :: rest => rest
  | '-' :: rest => rest
  | cs => cs

/-- Whether a scalar is text because of its leading zeros. -/
def hasLeadingZero (cs : List Char) : Bool :=
  let digits := unsigned cs
  1 < digits.length && digits.head? == some '0' && digits.all Decimal.isDigit

/-- The number that digits denote, in the base that they name or else in base 10. -/
def digits? (cs : List Char) : Option Nat :=
  match base? cs with
  | some (base, digits) => inBase? base digits
  | none => if hasLeadingZero cs then none else inBase? 10 cs

/-- The natural number that a scalar denotes. -/
def natural? (cs : List Char) : Option Nat :=
  match cs with
  | '+' :: rest => digits? rest
  | cs => digits? cs

/-- The integer that a scalar denotes. -/
def integer? (cs : List Char) : Option Int :=
  match cs with
  | '-' :: rest => (digits? rest).map fun n => -(n : Int)
  | cs => (natural? cs).map Int.ofNat

/-! ## Real numbers -/

/-- A real number, as near as a double comes to it. Zero has a sign. -/
inductive Real where
  | nan
  | infinite (negative : Bool)
  /-- The bits of a double without its sign. -/
  | finite (negative : Bool) (magnitude : UInt64)
deriving DecidableEq, Inhabited

/-- The real number nearest to `digits * 10 ^ exponent`, if the doubles reach so far. What has 324
    zeros after the point is nearest to zero, and what has 310 digits before it is out of reach. -/
def Real.nearest? (negative : Bool) (digits : Nat) (exponent : Int) : Option Real :=
  let width := (Decimal.write digits).length + exponent
  if digits = 0 || width < -323 then some (.finite negative 0)
  else if 309 < width then none
  else
    let x := Float.ofScientific digits (exponent < 0) exponent.natAbs
    if x.isFinite then some (.finite negative x.toBits) else none

/-- The digits before a character that is no digit, and what follows. -/
def spanDigits (cs : List Char) : List Char × List Char :=
  (cs.takeWhile Decimal.isDigit, cs.dropWhile Decimal.isDigit)

/-- The exponent that ends a real number; none counts as zero. -/
def exponent? (cs : List Char) : Option Int :=
  match cs with
  | [] => some 0
  | c :: rest =>
    let digits := unsigned rest
    if (c == 'e' || c == 'E') && !digits.isEmpty && digits.all Decimal.isDigit then
      some (if rest.head? == some '-' then -(Decimal.read digits : Int) else Decimal.read digits)
    else none

/-- The real number that a scalar without sign denotes in decimal. -/
def decimal? (negative : Bool) (cs : List Char) : Option Real :=
  let (whole, rest) := spanDigits cs
  let (part, rest) :=
    match rest with
    | '.' :: rest => spanDigits rest
    | rest => ([], rest)
  if whole.isEmpty && part.isEmpty then none
  else
    (exponent? rest).bind fun e =>
      Real.nearest? negative (Decimal.read (whole ++ part)) (e - part.length)

/-- The real number that a scalar denotes. One beyond the range of a double is text. -/
def real? (cs : List Char) : Option Real :=
  let isInfinity := [".inf", ".Inf", ".INF"].contains (String.ofList (unsigned cs))
  if isInfinity then some (.infinite (cs.head? == some '-'))
  else if [".nan", ".NaN", ".NAN"].contains (String.ofList cs) then some .nan
  else if hasLeadingZero cs then none
  else decimal? (cs.head? == some '-') (unsigned cs)

end Yaml

end Mend
