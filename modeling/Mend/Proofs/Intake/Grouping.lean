import Mend.Proofs.Intake.Sifting
import Mend.Proofs.Queue.Merging

set_option autoImplicit false

/-! # How cells are grouped into layers

Cells are spread over layers one by one, each as a task that is put in at the elevation of the cell.
So the layers of a list of cells hold the tasks of these cells by elevation (`shelved_layersOf`):
there is one layer for each elevation of a cell, ascending, with the tasks of the cells there in the
order of the list (`grouped_exactly`). -/

namespace Mend

/-- The layers `ls` are the cells of a list by elevation, as tasks for the damage `id` in the world
    `w` whose heights are measured from `base`. -/
structure Grouped (id : DamageId) (w : WorldName) (base : Coord) (cells : List LostCell)
    (ls : List Layer) : Prop where
  ascending : ls.Pairwise (·.elevation < ·.elevation)
  elevations : ∀ y, (∃ l ∈ ls, l.elevation = y) ↔ ∃ c ∈ cells, c.pos.y = y
  /-- A layer holds a task for each cell at its elevation, in the order of the list. -/
  tasks : ∀ l ∈ ls, ∃ height : Count, (height.val : Int) = l.elevation.val - base.val ∧
    l.tasks = (cells.filter (·.pos.y = l.elevation)).map fun c =>
      ⟨id, w, c.pos, c.content, c.provenance, height⟩
  whole : ((ls.flatMap Layer.tasks).map Task.lostCell).Perm cells
  lowest : ∃ l, ls.head? = some l ∧ l.elevation = base ∧ ∀ t ∈ l.tasks, t.height = 0

variable (id : DamageId) (w : WorldName) {cells : List LostCell} {base : Coord}

/-- The layers of cells hold their tasks by elevation. -/
theorem shelved_layersOf (h : lowestElevation? cells = some base) :
    Layer.Shelved (layersOf id w cells).1 (cells.map fun c => (c.pos.y, c.task id w base)) := by
  simp only [layersOf, h]
  exact Layer.Shelved.nil.foldl_insertInto (·.pos.y) (·.task id w base) cells

theorem tasks_of_mem_layersOf (h : lowestElevation? cells = some base) {l : Layer}
    (hl : l ∈ (layersOf id w cells).1) :
    l.tasks = (cells.filter (·.pos.y = l.elevation)).map (·.task id w base) := by
  rw [(shelved_layersOf id w h).tasks_eq hl, List.filter_map, List.map_map]
  rfl

theorem exists_elevation_layersOf_iff (h : lowestElevation? cells = some base) {y : Coord} :
    (∃ l ∈ (layersOf id w cells).1, l.elevation = y) ↔ ∃ c ∈ cells, c.pos.y = y := by
  rw [(shelved_layersOf id w h).exists_elevation_iff]
  simp

/-- The first layer stands at the lowest elevation of a cell. -/
theorem exists_head_layersOf (h : lowestElevation? cells = some base) :
    ∃ l, (layersOf id w cells).1.head? = some l ∧ l.elevation = base := by
  obtain ⟨hleast, hmem⟩ := lowestElevation?_spec h
  have hshelved := shelved_layersOf id w h
  obtain ⟨l, hl, hbase⟩ := (exists_elevation_layersOf_iff id w h).2 hmem
  cases hls : (layersOf id w cells).1 with
  | nil => exact absurd (hls ▸ hl) List.not_mem_nil
  | cons first rest =>
      have hfirst : first ∈ (layersOf id w cells).1 := hls ▸ List.mem_cons_self
      obtain ⟨c, hc, hcell⟩ := (exists_elevation_layersOf_iff id w h).1 ⟨first, hfirst, rfl⟩
      refine ⟨first, rfl, ?_⟩
      rcases List.mem_cons.1 (hls ▸ hl) with rfl | hrest
      · exact hbase
      · -- a layer that comes later stands higher than the first
        have hlt := (List.pairwise_cons.1 (hls ▸ hshelved.ascending)).1 l hrest
        exact Coord.le_antisymm (hbase ▸ Coord.le_of_lt hlt) (hcell ▸ hleast c hc)

theorem grouped_layersOf (h : lowestElevation? cells = some base) :
    Grouped id w base cells (layersOf id w cells).1 := by
  obtain ⟨hleast, -⟩ := lowestElevation?_spec h
  have hshelved := shelved_layersOf id w h
  refine ⟨hshelved.ascending, fun y => exists_elevation_layersOf_iff id w h, fun l hl => ?_, ?_, ?_⟩
  · obtain ⟨c, hc, hy⟩ := (exists_elevation_layersOf_iff id w h).1 ⟨l, hl, rfl⟩
    refine ⟨(c.task id w base).height, ?_, ?_⟩
    · rw [LostCell.height_task id w (hleast c hc), hy]
    · rw [tasks_of_mem_layersOf id w h hl]
      refine List.map_congr_left fun c' hc' => ?_
      have hy' : c'.pos.y = c.pos.y := (of_decide_eq_true (List.mem_filter.1 hc').2).trans hy.symm
      simp only [LostCell.task, hy']
  · have htasks : (((layersOf id w cells).1.flatMap Layer.tasks).map Task.lostCell).Perm
        ((cells.map (·.task id w base)).map Task.lostCell) := (tasks_layersOf h).map _
    rwa [List.map_map, show Task.lostCell ∘ (·.task id w base) = fun c => c from rfl,
      List.map_id'] at htasks
  · obtain ⟨l, hhead, hbase⟩ := exists_head_layersOf id w h
    refine ⟨l, hhead, hbase, fun t ht => ?_⟩
    rw [tasks_of_mem_layersOf id w h (List.mem_of_head? hhead)] at ht
    obtain ⟨c, hc, rfl⟩ := List.mem_map.1 ht
    obtain ⟨hc, hy⟩ := List.mem_filter.1 hc
    have hheight := LostCell.height_task id w (hleast c hc)
    rw [of_decide_eq_true hy, hbase, Int.sub_self] at hheight
    exact Capped.ext (Int.natCast_eq_zero.1 hheight)

/-- **Cells are grouped by elevation.** No cells make no layers and have no lowest elevation. Any
    others have a lowest one, and make one layer for each of their elevations, in ascending order. A
    layer holds a task for each cell at its elevation, in the order of the list, with the exact
    height above the lowest cell. -/
theorem grouped_exactly (id : DamageId) (w : WorldName) (cells : List LostCell) :
    layersOf id w [] = ([], none) ∧
      (cells ≠ [] → ∃ base, (layersOf id w cells).2 = some base ∧
        (∃ c ∈ cells, c.pos.y = base) ∧ (∀ c ∈ cells, base ≤ c.pos.y) ∧
        Grouped id w base cells (layersOf id w cells).1) := by
  refine ⟨rfl, fun hne => ?_⟩
  obtain ⟨base, hbase⟩ := Option.ne_none_iff_exists'.1 (mt lowestElevation?_eq_none_iff.1 hne)
  obtain ⟨hleast, hmem⟩ := lowestElevation?_spec hbase
  exact ⟨base, (layersOf_snd id w cells).trans hbase, hmem, hleast, grouped_layersOf id w hbase⟩

/-- Three cells stand at the two ends of the world. They make two layers, and the upper one keeps
    the order of the list. -/
theorem grouped_exactly_at_both_ends :
    let stone (x y : Int) : LostCell := ⟨Pos.clamp x y 0, Content.plain "stone", .natural⟩
    let cells := [stone 5 2147483647, stone 0 (-2147483648), stone 1 2147483647]
    let layers := (layersOf (DamageId.ofNat 1) "quarry" cells).1
    cells ≠ [] ∧ Grouped (DamageId.ofNat 1) "quarry" (Coord.clamp (-2147483648)) cells layers ∧
      layers.map (fun l => (l.elevation.val, l.tasks.map fun t => (t.pos.x.val, t.height.val)))
        = [(-2147483648, [(0, 0)]), (2147483647, [(5, 4294967295), (1, 4294967295)])] := by
  intro stone cells layers
  have hne : cells ≠ [] := List.cons_ne_nil _ _
  obtain ⟨base, hbase, -, -, hgrouped⟩ := (grouped_exactly (DamageId.ofNat 1) "quarry" cells).2 hne
  have hlow : (layersOf (DamageId.ofNat 1) "quarry" cells).2
      = some (Coord.clamp (-2147483648)) := by
    decide +kernel
  rw [hlow] at hbase
  cases hbase
  exact ⟨hne, hgrouped, by decide +kernel⟩

end Mend
