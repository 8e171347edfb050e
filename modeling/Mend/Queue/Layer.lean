import Mend.Capped
import Mend.Damage.Content
import Mend.Damage.DamageId

set_option autoImplicit false

/-! # Layers: restoration tasks by elevation

Cells are restored layer by layer from the bottom up. The queue keeps its layers strictly
ascending by elevation and never keeps an empty one; tasks of one elevation stay in the order
in which they came, whatever damage they belong to. -/

namespace Mend

/-- One cell to be restored. -/
structure Task where
  damage : DamageId
  world : WorldName
  pos : Pos
  content : Content
  provenance : Provenance
  /-- The elevation above the lowest cell taken in with the same damage. -/
  height : Count
deriving DecidableEq, Inhabited

/-- Tasks that stand at one elevation and are released together. -/
structure Layer where
  elevation : Coord
  tasks : List Task
deriving DecidableEq, Inhabited

/-- Put a layer into an ascending list: behind the tasks of its elevation where the list has
    that elevation, and at its sorted place otherwise. -/
def Layer.insertInto (layer : Layer) : List Layer → List Layer
  | [] => [layer]
  | l :: rest =>
    if layer.elevation < l.elevation then layer :: l :: rest
    else if l.elevation < layer.elevation then l :: layer.insertInto rest
    else { l with tasks := l.tasks ++ layer.tasks } :: rest

/-- The layers that wait for their release, lowest first. -/
structure LayerQueue where
  layers : List Layer
deriving DecidableEq, Inhabited

namespace LayerQueue

/-- The queue without layers. -/
def empty : LayerQueue := ⟨[]⟩

/-- Add the tasks of a layer; a layer without tasks changes nothing. -/
def merge (q : LayerQueue) (layer : Layer) : LayerQueue :=
  if layer.tasks.isEmpty then q else ⟨layer.insertInto q.layers⟩

/-- Take out the lowest layer. -/
def popLowest (q : LayerQueue) : Option (Layer × LayerQueue) :=
  match q.layers with
  | [] => none
  | layer :: rest => some (layer, ⟨rest⟩)

/-- The elevations that have tasks waiting, ascending. -/
def elevations (q : LayerQueue) : List Coord := q.layers.map Layer.elevation

/-- The elevation of the layer that is released next. -/
def lowest? (q : LayerQueue) : Option Coord := q.elevations.head?

/-- The number of layers. -/
def size (q : LayerQueue) : Nat := q.layers.length

/-- Whether nothing waits. -/
def isEmpty (q : LayerQueue) : Bool := q.layers.isEmpty

/-- All waiting tasks, in the order of their release. -/
def tasks (q : LayerQueue) : List Task := q.layers.flatMap Layer.tasks

/-- The number of tasks in all layers. -/
def taskCount (q : LayerQueue) : Nat := q.tasks.length

/-- Drop everything. Returns the number of tasks dropped. -/
def clear (q : LayerQueue) : Nat × LayerQueue := (q.taskCount, empty)

@[simp] theorem taskCount_empty : empty.taskCount = 0 := rfl

end LayerQueue

end Mend
