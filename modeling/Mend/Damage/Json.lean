import Mend.Damage.Completion
import Mend.Damage.IdText
import Mend.Json.Value
import Mend.Time.Rfc3339

set_option autoImplicit false

/-! # Damage as JSON

Every type that leaves the program has a written form. A record is written as an object with
its fields in a fixed order; it is read from an object in any order or from an array. -/

namespace Mend

/-! ## Numbers, texts and names -/

/-- A number up to a cap. -/
def Capped.toJson {m : Nat} (n : Capped m) : Json := .int n.val

/-- Read a number up to a cap. -/
def Capped.ofJson? {m : Nat} : Json → Option (Capped m)
  | .int n => if 0 ≤ n then Capped.ofNat? n.toNat else none
  | _ => none

/-- A coordinate. -/
def Coord.toJson (c : Coord) : Json := .int c.val

/-- Read a coordinate. -/
def Coord.ofJson? : Json → Option Coord
  | .int n => Coord.ofInt? n
  | _ => none

/-- A text. -/
def Json.ofString (s : String) : Json := .str (some s)

/-- Read a text. -/
def Json.string? : Json → Option String
  | .str s => s
  | _ => none

/-- Read a name: its text, or an object with the name as its only key and nothing under it. -/
def Json.name? : Json → Option String
  | .str s => s
  | .obj [(key, .null)] => key
  | _ => none

/-! ## Places -/

namespace Pos

/-- A position. -/
def toJson (p : Pos) : Json :=
  .record [("x", p.x.toJson), ("y", p.y.toJson), ("z", p.z.toJson)]

/-- Read a position. -/
def ofJson? (j : Json) : Option Pos :=
  match j.fields? ["x", "y", "z"] with
  | some [some x, some y, some z] =>
    match Coord.ofJson? x, Coord.ofJson? y, Coord.ofJson? z with
    | some x, some y, some z => some ⟨x, y, z⟩
    | _, _, _ => none
  | _ => none

end Pos

namespace Box

/-- A box. -/
def toJson (b : Box) : Json := .record [("min", b.low.toJson), ("max", b.high.toJson)]

/-- Read a box. -/
def ofJson? (j : Json) : Option Box :=
  match j.fields? ["min", "max"] with
  | some [some low, some high] =>
    match Pos.ofJson? low, Pos.ofJson? high with
    | some low, some high => some ⟨low, high⟩
    | _, _ => none
  | _ => none

end Box

/-! ## Cells -/

/-- Properties, by key. -/
def Properties.toJson (p : Properties) : Json :=
  .record (p.toList.map fun kv => (kv.1, Json.ofString kv.2))

/-- Read properties; of members with the same key the last counts. -/
def Properties.ofJson? : Json → Option Properties
  | .obj members =>
    members.foldl (fun (acc : Option Properties) member =>
      match acc, member.1, member.2.string? with
      | some p, some key, some value => some (p.insert key value)
      | _, _, _ => none) (some ∅)
  | _ => none

namespace Content

/-- A content; properties are left out where there are none. -/
def toJson (c : Content) : Json :=
  .record (("material", Json.ofString c.material) ::
    (if c.properties.isEmpty then [] else [("properties", Properties.toJson c.properties)]))

/-- Read a content. -/
def ofJson? (j : Json) : Option Content :=
  match j.fields? ["material", "properties"] with
  | some [some material, none] => material.string?.map Content.plain
  | some [some material, some properties] =>
    match material.string?, Properties.ofJson? properties with
    | some material, some properties => some ⟨material, properties⟩
    | _, _ => none
  | _ => none

end Content

namespace Provenance

/-- A provenance. -/
def toJson (p : Provenance) : Json := .ofString p.name

/-- The provenance of the given name. -/
def ofName? (name : String) : Option Provenance :=
  if name = "natural" then some .natural else if name = "placed" then some .placed else none

/-- Read a provenance. -/
def ofJson? (j : Json) : Option Provenance := j.name?.bind ofName?

end Provenance

namespace Outcome

/-- An outcome. -/
def toJson (o : Outcome) : Json := .ofString o.name

/-- The outcome of the given name. -/
def ofName? (name : String) : Option Outcome :=
  if name = "restored" then some .restored
  else if name = "skipped" then some .skipped
  else if name = "failed" then some .failed
  else none

/-- Read an outcome. -/
def ofJson? (j : Json) : Option Outcome := j.name?.bind ofName?

end Outcome

namespace LostCell

/-- A lost cell. -/
def toJson (c : LostCell) : Json :=
  .record [("pos", c.pos.toJson), ("snapshot", c.content.toJson),
    ("classification", c.provenance.toJson)]

/-- Read a lost cell. -/
def ofJson? (j : Json) : Option LostCell :=
  match j.fields? ["pos", "snapshot", "classification"] with
  | some [some pos, some content, some provenance] =>
    match Pos.ofJson? pos, Content.ofJson? content, Provenance.ofJson? provenance with
    | some pos, some content, some provenance => some ⟨pos, content, provenance⟩
    | _, _, _ => none
  | _ => none

end LostCell

/-! ## Damage and its completion -/

/-- Read every item of an array. -/
def Json.list? {α : Type} (item : Json → Option α) : Json → Option (List α)
  | .arr items => items.mapM item
  | _ => none

namespace DamageId

/-- An identifier. -/
def toJson (id : DamageId) : Json := .ofString id.text

/-- Read an identifier. -/
def ofJson? (j : Json) : Option DamageId := j.string?.bind ofText?

end DamageId

namespace Damage

/-- Damage. -/
def toJson (d : Damage) : Json :=
  .record [("world_id", .ofString d.world), ("origin", d.origin.toJson),
    ("intensity", d.intensity.toJson), ("cells", .arr (d.cells.map LostCell.toJson))]

/-- Read damage. -/
def ofJson? (j : Json) : Option Damage :=
  match j.fields? ["world_id", "origin", "intensity", "cells"] with
  | some [some world, some origin, some intensity, some cells] =>
    match world.string?, Pos.ofJson? origin, Capped.ofJson? intensity,
      cells.list? LostCell.ofJson? with
    | some world, some origin, some intensity, some cells =>
      some ⟨world, origin, intensity, cells⟩
    | _, _, _, _ => none
  | _ => none

end Damage

namespace Instant

/-- An instant. -/
def toJson (t : Instant) : Json := .ofString t.text

/-- Read an instant. -/
def ofJson? (j : Json) : Option Instant := j.string?.bind ofText?

end Instant

/-- A completion with the moment at which it was noted. -/
structure TimedCompletion where
  completion : Completion
  notedAt : Instant
deriving DecidableEq

namespace TimedCompletion

/-- The fields of a completion, in order. -/
def fieldNames : List String :=
  ["event_id", "world_id", "origin", "intensity", "radius", "region", "restored", "skipped",
    "failed", "submitted_tick", "completed_tick", "completed_at"]

/-- A completion. -/
def toJson (t : TimedCompletion) : Json :=
  let c := t.completion
  .record (fieldNames.zip
    [c.damage.toJson, .ofString c.world, c.origin.toJson, c.intensity.toJson, c.radius.toJson,
      c.hazard.toJson, c.tally.restored.toJson, c.tally.skipped.toJson, c.tally.failed.toJson,
      c.submitted.toJson, c.completed.toJson, t.notedAt.toJson])

/-- Read a completion. -/
def ofJson? (j : Json) : Option TimedCompletion :=
  match j.fields? fieldNames with
  | some [some damage, some world, some origin, some intensity, some radius, some hazard,
      some restored, some skipped, some failed, some submitted, some completed, some notedAt] => do
    let completion : Completion :=
      { damage := ← DamageId.ofJson? damage
        world := ← world.string?
        origin := ← Pos.ofJson? origin
        intensity := ← Capped.ofJson? intensity
        radius := ← Capped.ofJson? radius
        hazard := ← Box.ofJson? hazard
        tally :=
          { restored := ← Capped.ofJson? restored
            skipped := ← Capped.ofJson? skipped
            failed := ← Capped.ofJson? failed }
        submitted := ← Capped.ofJson? submitted
        completed := ← Capped.ofJson? completed }
    return ⟨completion, ← Instant.ofJson? notedAt⟩
  | _ => none

end TimedCompletion

end Mend
