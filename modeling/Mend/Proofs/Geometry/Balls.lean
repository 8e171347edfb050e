import Mathlib.Algebra.Order.Ring.Int
import Mathlib.Data.Int.Lemmas
import Mathlib.Data.List.Dedup
import Mathlib.Data.Prod.Lex
import Mend.Geometry.Ball

set_option autoImplicit false

/-! # Which positions a ball lists, in which order, and how often

A ball is listed by displacement, and the displacements ascend strictly
(`Ball.displacements_ascending`). One that leads beyond an end of the world is cut short there,
which takes it nearer to the center. So the positions listed are exactly those within the radius,
wherever the center is (`Pos.mem_ball`). Where no displacement is cut short the positions ascend
strictly as well, and otherwise some position is listed twice (`Pos.ball_ascending_iff`,
`Pos.ball_nodup_iff`).

Squares may be reckoned with a cap of 2⁶³ − 1. A sum of three of them can reach it, the square of
the radius cannot, so they compare as they would without it (`Pos.ball_eq_ballByArea`). -/

namespace Mend

/-- The square of the distance between two positions. -/
def Pos.squaredDistance (p q : Pos) : Int :=
  (p.x.val - q.x.val) ^ 2 + (p.y.val - q.y.val) ^ 2 + (p.z.val - q.z.val) ^ 2

/-- The distance up to which a ball of the given radius lists positions. -/
def Ball.reach (radius : Count) : Nat := min radius.val 2147483647

/-- No position within distance `r` along this coordinate lies beyond the ends of the world. -/
def Coord.Clears (c : Coord) (r : Nat) : Prop :=
  -2147483648 ≤ c.val - r ∧ c.val + r ≤ 2147483647

instance (c : Coord) (r : Nat) : Decidable (c.Clears r) := inferInstanceAs (Decidable (_ ∧ _))

/-- The cube around a center that a ball of the given radius touches lies inside the world. -/
def Pos.Fits (center : Pos) (radius : Count) : Prop :=
  center.x.Clears (Ball.reach radius) ∧ center.y.Clears (Ball.reach radius) ∧
    center.z.Clears (Ball.reach radius)

instance (center : Pos) (radius : Count) : Decidable (center.Fits radius) :=
  inferInstanceAs (Decidable (_ ∧ _))

/-! ## Membership -/

namespace Coord

variable {c : Coord} {r : Nat} {d : Int}

/-- Moving along a coordinate stops at the ends of the world, and so leads no further than
    asked. -/
theorem sq_clamp_sub_le (c : Coord) (d : Int) :
    ((clamp (c.val + d)).val - c.val) ^ 2 ≤ d ^ 2 := by
  have hleast := c.least_le
  have hgreatest := c.le_greatest
  apply Int.natAbs_le_iff_sq_le.1
  rw [val_clamp]
  omega

theorem clamp_add_sub (c e : Coord) : clamp (c.val + (e.val - c.val)) = e := by
  rw [add_sub_cancel, clamp_val]

end Coord

/-- A displacement is no longer along one coordinate than it is in all. -/
theorem Ball.mem_span_of_sq_le {r : Nat} {d s : Int} (hs : 0 ≤ s) (h : d ^ 2 + s ≤ (r : Int) ^ 2) :
    d ∈ span r := by
  have habs : d.natAbs ≤ (r : Int).natAbs := Int.natAbs_le_iff_sq_le.2 (by omega)
  rw [mem_span]
  omega

/-- A ball lists the positions within its radius. -/
theorem Pos.mem_ball {p center : Pos} {radius : Count} :
    p ∈ center.ball radius ↔ p.squaredDistance center ≤ (Ball.reach radius : Int) ^ 2 := by
  simp only [ball, List.mem_map, Prod.exists, Ball.mem_displacements, ← sq]
  constructor
  · rintro ⟨dx, dy, dz, ⟨-, hle⟩, rfl⟩
    have hx := center.x.sq_clamp_sub_le dx
    have hy := center.y.sq_clamp_sub_le dy
    have hz := center.z.sq_clamp_sub_le dz
    calc (center.offset dx dy dz).squaredDistance center
        ≤ dx ^ 2 + dy ^ 2 + dz ^ 2 := add_le_add (add_le_add hx hy) hz
      _ ≤ (Ball.reach radius : Int) ^ 2 := hle
  · intro hle
    unfold squaredDistance at hle
    have hx := sq_nonneg (p.x.val - center.x.val)
    have hy := sq_nonneg (p.y.val - center.y.val)
    have hz := sq_nonneg (p.z.val - center.z.val)
    refine ⟨p.x.val - center.x.val, p.y.val - center.y.val, p.z.val - center.z.val,
      ⟨⟨?_, ?_, ?_⟩, hle⟩, ?_⟩
    · exact Ball.mem_span_of_sq_le (r := Ball.reach radius) (add_nonneg hy hz) (by omega)
    · exact Ball.mem_span_of_sq_le (r := Ball.reach radius) (add_nonneg hx hz) (by omega)
    · exact Ball.mem_span_of_sq_le (r := Ball.reach radius) (add_nonneg hx hy) (by omega)
    · simp only [offset, Pos.clamp, Coord.clamp_add_sub]

/-! ## Order -/

/-- Positions are ordered by `x`, then by `y`, then by `z`. -/
theorem Pos.compare_eq_lt_iff {p q : Pos} : compare p q = .lt ↔
    p.x < q.x ∨ p.x = q.x ∧ (p.y < q.y ∨ p.y = q.y ∧ p.z < q.z) := by
  have hlt : ∀ a b : Coord, compare a b = .lt ↔ a < b := fun a b => Int.compare_eq_lt
  show compareLex (compareOn Pos.x) (compareLex (compareOn Pos.y) (compareOn Pos.z)) p q = .lt ↔ _
  simp only [compareLex, compareOn, Ordering.then_eq_lt, hlt, Std.LawfulEqCmp.compare_eq_iff_eq]

theorem Ball.span_ascending (r : Nat) : (span r).Pairwise (· < ·) := by
  rw [span, List.pairwise_map]
  apply List.pairwise_lt_range.imp
  intro i j hij
  omega

/-- The displacements of a ball ascend strictly. -/
theorem Ball.displacements_ascending (r : Nat) :
    (displacements r).Pairwise (Prod.Lex (· < ·) (Prod.Lex (· < ·) (· < ·))) := by
  rw [displacements, List.pairwise_flatMap]
  constructor
  · intro dx _
    rw [List.pairwise_flatMap]
    constructor
    · intro dy _
      rw [List.pairwise_map]
      exact ((span_ascending r).filter _).imp fun hlt => Prod.Lex.right _ (Prod.Lex.right _ hlt)
    · apply (span_ascending r).imp
      intro dy ey hlt d hd e he
      obtain ⟨dz, -, rfl⟩ := List.mem_map.1 hd
      obtain ⟨ez, -, rfl⟩ := List.mem_map.1 he
      exact Prod.Lex.right _ (Prod.Lex.left _ _ hlt)
  · apply (span_ascending r).imp
    intro dx ex hlt d hd e he
    obtain ⟨dy, -, hd⟩ := List.mem_flatMap.1 hd
    obtain ⟨ey, -, he⟩ := List.mem_flatMap.1 he
    obtain ⟨dz, -, rfl⟩ := List.mem_map.1 hd
    obtain ⟨ez, -, rfl⟩ := List.mem_map.1 he
    exact Prod.Lex.left _ _ hlt

/-- Inside the world a coordinate moves as far as asked. -/
theorem Coord.Clears.val_clamp_add {c : Coord} {r : Nat} (h : c.Clears r) {d : Int}
    (hd : d ∈ Ball.span r) : (clamp (c.val + d)).val = c.val + d := by
  have hspan := Ball.mem_span.1 hd
  unfold Clears at h
  rw [val_clamp]
  omega

/-- Where a coordinate does not clear the ends of the world, two ways to move along it lead to the
    same end. -/
theorem Coord.exists_collision {c : Coord} {r : Nat} (h : ¬ c.Clears r) :
    ∃ d ∈ Ball.span r, ∃ e ∈ Ball.span r, d ≠ e ∧ clamp (c.val + d) = clamp (c.val + e) := by
  have hleast := c.least_le
  have hgreatest := c.le_greatest
  unfold Clears at h
  by_cases hhigh : c.val + r ≤ 2147483647
  · refine ⟨-r, Ball.mem_span.2 (by omega), -r + 1, Ball.mem_span.2 (by omega), by omega, ?_⟩
    apply Coord.ext
    simp only [val_clamp]
    omega
  · refine ⟨r, Ball.mem_span.2 (by omega), r - 1, Ball.mem_span.2 (by omega), by omega, ?_⟩
    apply Coord.ext
    simp only [val_clamp]
    omega

/-- The displacements along a single coordinate are those of its span. -/
theorem Ball.axis_mem_displacements {r : Nat} {d : Int} (hd : d ∈ span r) :
    (d, 0, 0) ∈ displacements r ∧ (0, d, 0) ∈ displacements r ∧ (0, 0, d) ∈ displacements r := by
  have hspan := mem_span.1 hd
  have hzero : (0 : Int) ∈ span r := mem_span.2 (by omega)
  have hle : d * d ≤ (r : Int) * r := by
    rw [← sq, ← sq]
    exact Int.natAbs_le_iff_sq_le.1 (by omega)
  simp [mem_displacements, hd, hzero, hle]

namespace Pos

variable {center : Pos} {radius : Count}

/-- A ball inside the world lists its positions in strictly ascending order. -/
theorem Fits.ascending (h : center.Fits radius) :
    (center.ball radius).Pairwise fun p q => compare p q = .lt := by
  obtain ⟨hx, hy, hz⟩ := h
  rw [ball, List.pairwise_map]
  apply (Ball.displacements_ascending _).imp_of_mem
  rintro ⟨dx, dy, dz⟩ ⟨ex, ey, ez⟩ hd he hlt
  obtain ⟨⟨hdx, hdy, hdz⟩, -⟩ := Ball.mem_displacements.1 hd
  obtain ⟨⟨hex, hey, hez⟩, -⟩ := Ball.mem_displacements.1 he
  simp only [Prod.lex_def] at hlt
  rw [compare_eq_lt_iff]
  simp only [Coord.lt_def, Coord.ext_iff, offset, Pos.clamp, hx.val_clamp_add hdx,
    hx.val_clamp_add hex, hy.val_clamp_add hdy, hy.val_clamp_add hey, hz.val_clamp_add hdz,
    hz.val_clamp_add hez]
  omega

theorem nodup_of_ascending {ps : List Pos} (h : ps.Pairwise fun p q => compare p q = .lt) :
    ps.Nodup := by
  refine h.imp ?_
  rintro p q hlt rfl
  simp at hlt

/-- A ball that lists no position twice lies inside the world. -/
theorem fits_of_nodup (h : (center.ball radius).Nodup) : center.Fits radius := by
  have hinj := List.inj_on_of_nodup_map h
  refine ⟨?_, ?_, ?_⟩
  · by_contra hbeyond
    obtain ⟨d, hd, e, he, hne, heq⟩ := Coord.exists_collision hbeyond
    have hsame := hinj (Ball.axis_mem_displacements hd).1 (Ball.axis_mem_displacements he).1
      (by simp [offset, Pos.clamp, heq])
    exact hne (congrArg (fun d => d.1) hsame)
  · by_contra hbeyond
    obtain ⟨d, hd, e, he, hne, heq⟩ := Coord.exists_collision hbeyond
    have hsame := hinj (Ball.axis_mem_displacements hd).2.1 (Ball.axis_mem_displacements he).2.1
      (by simp [offset, Pos.clamp, heq])
    exact hne (congrArg (fun d => d.2.1) hsame)
  · by_contra hbeyond
    obtain ⟨d, hd, e, he, hne, heq⟩ := Coord.exists_collision hbeyond
    have hsame := hinj (Ball.axis_mem_displacements hd).2.2 (Ball.axis_mem_displacements he).2.2
      (by simp [offset, Pos.clamp, heq])
    exact hne (congrArg (fun d => d.2.2) hsame)

theorem ball_nodup_iff : (center.ball radius).Nodup ↔ center.Fits radius :=
  ⟨fits_of_nodup, fun h => nodup_of_ascending h.ascending⟩

/-- The length of a ball is the number of its positions just where it lies inside the world. -/
theorem length_ball_eq_iff :
    (center.ball radius).length = (center.ball radius).dedup.length ↔ center.Fits radius := by
  rw [← ball_nodup_iff, ← List.dedup_eq_self]
  constructor
  · intro h
    exact (List.dedup_sublist _).eq_of_length h.symm
  · intro h
    rw [h]

theorem ball_ascending_iff :
    ((center.ball radius).Pairwise fun p q => compare p q = .lt) ↔ center.Fits radius :=
  ⟨fun h => fits_of_nodup (nodup_of_ascending h), Fits.ascending⟩

end Pos

/-! ## Capped squares -/

/-- Squares of distances, up to 2⁶³ − 1. -/
abbrev Area := Capped 9223372036854775807

/-- The square of an integer, cut off at the cap. -/
def Area.square (i : Int) : Area := Capped.clamp (i * i).toNat

/-- The positions within `radius` of `center`, their distances reckoned with capped squares. -/
def Pos.ballByArea (center : Pos) (radius : Count) : List Pos :=
  (Ball.span (Ball.reach radius)).flatMap fun dx =>
    (Ball.span (Ball.reach radius)).flatMap fun dy =>
      ((Ball.span (Ball.reach radius)).filter fun dz =>
        Area.square dx + Area.square dy + Area.square dz ≤ Area.square (Ball.reach radius)).map
          fun dz => center.offset dx dy dz

/-- Against the square of a radius, which is below the cap, capped sums compare as exact ones. -/
theorem Area.sum_le_square_iff {r : Nat} (hr : r ≤ 2147483647) (dx dy dz : Int) :
    square dx + square dy + square dz ≤ square r ↔ dx * dx + dy * dy + dz * dz ≤ (r : Int) * r := by
  have hx := mul_self_nonneg dx
  have hy := mul_self_nonneg dy
  have hz := mul_self_nonneg dz
  have hsquare : r * r ≤ 2147483647 * 2147483647 := Nat.mul_le_mul hr hr
  have hcast : (r : Int) * r = ((r * r : Nat) : Int) := (Nat.cast_mul r r).symm
  simp only [Capped.le_def, Capped.val_add, square, Capped.val_clamp, hcast]
  omega

theorem Pos.ball_eq_ballByArea (center : Pos) (radius : Count) :
    center.ball radius = center.ballByArea radius := by
  have hr : Ball.reach radius ≤ 2147483647 := Nat.min_le_right _ _
  simp only [ball, ballByArea, Ball.displacements, List.map_flatMap, List.map_map,
    Area.sum_le_square_iff hr]
  rfl

end Mend
