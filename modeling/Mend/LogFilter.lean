import Mend.Settings.Document
import Mend.Text.Blank
import Mend.Text.Bytes
import Mend.Text.Sign

set_option autoImplicit false

/-! # Log filters: which messages the log shows

A filter is a list of directives between commas. A directive is a level, or a source of
messages, or both with an equals sign between them; after the source, brackets may name a span
and, in braces, a field. Of the directives that concern a message the most specific one decides.

White space around a directive does not belong to it, yet its parts are cut from the text that
includes it: where a part begins and ends is counted in bytes without the space before the
directive. Such a cut need not fall between two characters, and then the filter is useless. -/

namespace Mend

namespace LogFilter

/-! ## Levels -/

/-- The levels by name; each shows what the ones before it show, and more. -/
def levelNames : List String := ["off", "error", "warn", "info", "debug", "trace"]

/-- The level of messages about errors. -/
def error : Nat := 1

/-- The level of messages that inform. -/
def info : Nat := 3

/-- The highest level. -/
def trace : Nat := 5

/-- A level, by its name in any case or by its number. -/
def level? (cs : List Char) : Option Nat :=
  match levelNames.idxOf? (String.ofList (cs.map Char.toLower)) with
  | some n => some n
  | none => (Settings.readDigits? cs).filter (· ≤ trace)

/-! ## Directives -/

/-- A directive: messages that it concerns are shown up to the level. -/
structure Directive where
  /-- What the source of a message begins with. -/
  source : List Char
  /-- The span that a message stands in. -/
  span : Option String
  /-- A field that a message has. -/
  field : Option String
  level : Nat
deriving DecidableEq, Inhabited

/-- Why a text between commas is no directive. -/
inductive Refusal where
  /-- It breaks the rules, and the filter does without it. -/
  | passedOver
  /-- A part of it begins or ends inside a character. -/
  | splitChar
deriving DecidableEq, Inhabited

namespace Directive

/-- Whether a directive that has no bracket first can begin with a character. -/
def canBegin (c : Char) : Bool := isWordChar c || ['-', ':', '_'].contains c

/-- The part of a text between two bytes. -/
def part (text : List Char) (start stop : Nat) : Except Refusal (List Char) :=
  match cut? text start stop with
  | none => .error .splitChar
  | some cs => .ok cs

/-- The level that a text names from a byte on. Nothing written stands for the highest one. -/
def levelFrom (text : List Char) (start : Nat) : Except Refusal Nat :=
  match dropBytes? start text with
  | none => .error .splitChar
  | some [] => .ok trace
  | some cs =>
    match level? cs with
    | none => .error .passedOver
    | some level => .ok level

/-- The level after a closing bracket, by what follows the bracket and where. -/
def levelAfterBracket (text : List Char) (start : Nat) : List Char → Except Refusal Nat
  | [] => .ok trace
  | '=' :: _ => levelFrom text (start + 1)
  | _ => .error .passedOver

/-- The directive that goes on after a source and a span, by what follows the opening brace and
    where. -/
def inBrace (text source : List Char) (span : Option String) (start : Nat) (cs : List Char) :
    Except Refusal Directive :=
  let field := cs.takeWhile (· != '\x7d')
  let stop := start + byteCount field
  match cs.drop field.length with
  | [] => .error .passedOver
  | _ :: rest => do
    let field ← part text start stop
    match field, rest with
    | _ :: _, ']' :: rest =>
      let level ← levelAfterBracket text (stop + 2) rest
      return { source, span, field := some (String.ofList field), level }
    | _, _ => .error .passedOver

/-- The directive that goes on after a source, by what follows the opening bracket and where. -/
def inBracket (text source : List Char) (start : Nat) (cs : List Char) :
    Except Refusal Directive :=
  let span := cs.takeWhile fun c => c != ']' && c != '\x7b'
  let stop := start + byteCount span
  match cs.drop span.length with
  | ']' :: rest => do
    let span ← part text start stop
    let level ← levelAfterBracket text (stop + 1) rest
    return { source, span := some (String.ofList span), field := none, level }
  | '\x7b' :: rest => do
    let span ← part text start stop
    inBrace text source (if span.isEmpty then none else some (String.ofList span)) (stop + 1) rest
  | _ => .error .passedOver

/-- The directive that a text between commas denotes. Without a level it shows all, and a level
    alone is one for all sources. -/
def ofChars (text : List Char) : Except Refusal Directive :=
  let cs := trim text
  match cs with
  | [] => .error .passedOver
  | '[' :: rest => inBracket text [] 1 rest
  | c :: _ =>
    if canBegin c then
      let source := cs.takeWhile fun c => c != '=' && c != '['
      let stop := byteCount source
      match cs.drop source.length with
      | '=' :: _ => do
        let source ← part text 0 stop
        let level ← levelFrom text (stop + 1)
        return { source, span := none, field := none, level }
      | '[' :: rest => do
        let source ← part text 0 stop
        inBracket text source (stop + 1) rest
      | _ =>
        match level? text with
        | some level => .ok { source := [], span := none, field := none, level }
        | none => .ok { source := text, span := none, field := none, level := trace }
    else .error .passedOver

/-- The order of directives by how specific they are: by the length of the source, then by the
    field. -/
def bySpecificity : Directive → Directive → Ordering :=
  compareLex (compareOn fun d => d.source.length) (compareOn field)

end Directive

/-! ## Filters -/

/-- The parts of a text between commas. -/
def parts : List Char → List (List Char)
  | [] => [[]]
  | c :: rest =>
    match parts rest with
    | [] => [[c]]
    | part :: more => if c == ',' then [] :: part :: more else (c :: part) :: more

/-- The directives among the given ones, unless one of them splits a character. -/
def collect? : List (Except Refusal Directive) → Option (List Directive)
  | [] => some []
  | .ok d :: rest => (collect? rest).map (d :: ·)
  | .error .passedOver :: rest => collect? rest
  | .error .splitChar :: _ => none

/-- The directives of a filter, unless it is useless. Without any, only errors are shown. -/
def directives? (filter : String) : Option (List Directive) :=
  (collect? ((parts filter.toList).map Directive.ofChars)).map fun ds =>
    if ds.isEmpty then [{ source := [], span := none, field := none, level := error }] else ds

/-- A message outside all spans. -/
structure Message where
  source : String
  /-- The names of its fields. -/
  fields : List String
  level : Nat
deriving DecidableEq, Inhabited

/-- Whether a directive concerns a message. -/
def Directive.concerns (d : Directive) (m : Message) : Bool :=
  d.source.isPrefixOf m.source.toList && d.span.isNone && d.field.all m.fields.contains

/-- Whether directives show a message. Of equally specific ones the last one counts. -/
def shows (directives : List Directive) (m : Message) : Bool :=
  let concerned := directives.filter (·.concerns m)
  let decided := concerned.foldl (fun (best : Option Directive) d =>
    if best.all (fun b => (b.bySpecificity d).isLE) then some d else best) none
  decided.any fun d => m.level ≤ d.level

end LogFilter

end Mend
