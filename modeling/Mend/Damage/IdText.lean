import Mend.Damage.DamageId
import Mend.Text.Hex

set_option autoImplicit false

/-! # The text of damage identifiers

An identifier is written as 32 hexadecimal digits in groups of 8, 4, 4, 4 and 12, joined by
hyphens. It is read in this form, also in braces or after `urn:uuid:`, and as 32 digits without
hyphens. Letters are read in either case. -/

namespace Mend

namespace DamageId

/-- Split a list into groups of the given sizes and join them by hyphens. -/
def hyphenate : List Nat → List Char → List Char
  | [], _ => []
  | [k], cs => cs.take k
  | k :: ks, cs => cs.take k ++ '-' :: hyphenate ks (cs.drop k)

/-- Take the hyphens out that separate groups of the given sizes, if they stand there and
    nowhere else. -/
def unhyphenate? : List Nat → List Char → Option (List Char)
  | [], cs => if cs.isEmpty then some [] else none
  | [k], cs => if cs.length = k then some cs else none
  | k :: ks, cs =>
    match cs.drop k with
    | '-' :: rest => (unhyphenate? ks rest).map (cs.take k ++ ·)
    | _ => none

/-- The sizes of the groups of digits. -/
def groups : List Nat := [8, 4, 4, 4, 12]

/-- The characters of the written form. -/
def chars (id : DamageId) : List Char := hyphenate groups (Hex.write 32 id.toNat)

/-- The written form. -/
def text (id : DamageId) : String := String.ofList id.chars

/-- The identifier with the given digits. -/
def ofDigits? (digits : List Char) : Option DamageId :=
  if digits.length = 32 then (Hex.read? digits).map DamageId.ofNat else none

/-- The hyphenated form inside its wrapping, if it has one. -/
def unwrap (cs : List Char) : List Char :=
  let start := "urn:uuid:".toList
  if cs.length = 38 && cs.head? == some '\x7b' && cs.getLast? == some '\x7d' then
    (cs.drop 1).dropLast
  else if cs.length = 45 && (cs.take 9).map Char.toLower == start then cs.drop 9
  else cs

/-- Read an identifier in any of its forms. -/
def ofChars? (cs : List Char) : Option DamageId :=
  if cs.length = 32 then ofDigits? cs
  else (unhyphenate? groups (unwrap cs)).bind ofDigits?

/-- Read an identifier in any of its forms. -/
def ofText? (s : String) : Option DamageId := ofChars? s.toList

end DamageId

end Mend
