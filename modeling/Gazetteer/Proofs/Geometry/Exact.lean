import Gazetteer.Proofs.Geometry.Squares
import Gazetteer.Search.Expansion
import Mathlib.Algebra.Order.Field.Basic
import Mathlib.Data.Rat.Cast.Order
import Mathlib.Tactic.Linarith
import Mathlib.Tactic.Ring

/-! Geometry in exact numbers, the elements of any ordered field. Nothing is rounded, so a scaled
rectangle reaches exactly half its width times the factor to both sides of its centre, and the
squares of cells lie in the world. -/
namespace Gazetteer

variable {K : Type} [Field K] [LinearOrder K]

/-- The operations and the order of the field. All exact numbers are finite. -/
@[reducible] def exactScalar : Scalar K where
  decLE := inferInstance
  decLT := inferInstance
  isFinite _ := true

-- The operations of the field itself are the ones that lemmas are about.
attribute [local instance (low)] Scalar.toAdd Scalar.toSub Scalar.toMul Scalar.toDiv Scalar.toNeg
  Scalar.toLE Scalar.toLT Scalar.toNatCast
attribute [local instance] exactScalar

namespace Rect

private theorem order_exact (s t : K) :
    (if s < t then (s, t) else (t, s)) = (min s t, max s t) := by
  split
  · next h => rw [min_eq_left h.le, max_eq_right h.le]
  · next h => rw [min_eq_right (not_lt.mp h), max_eq_left (not_lt.mp h)]

private theorem ofCorners_exact (a b : Point K) :
    ofCorners a b = ⟨⟨min a.x b.x, min a.y b.y⟩, ⟨max a.x b.x, max a.y b.y⟩⟩ := by
  have hx := order_exact a.x b.x
  have hy := order_exact a.y b.y
  simp only [ofCorners]
  rw [hx, hy]

/-- One axis of a scaled rectangle: half the width times the factor to both sides of the middle. -/
def spread (p q f : K) : K × K := ((q + p) / 2 - |(q - p) * f / 2|, (q + p) / 2 + |(q - p) * f / 2|)

variable [IsStrictOrderedRing K]

private theorem min_max_reach (c h : K) :
    min (c - h) (c + h) = c - |h| ∧ max (c - h) (c + h) = c + |h| := by
  rcases le_total 0 h with hh | hh
  · rw [abs_of_nonneg hh, min_eq_left (by linarith), max_eq_right (by linarith)]
    exact ⟨rfl, rfl⟩
  · rw [abs_of_nonpos hh, min_eq_right (by linarith), max_eq_left (by linarith), sub_neg_eq_add,
      ← sub_eq_add_neg]
    exact ⟨rfl, rfl⟩

/-- In exact numbers a scaled rectangle has each axis spread around its middle. -/
theorem scaled_exact (v : Rect K) (f : K) :
    v.scaled f =
      ⟨⟨(spread v.lo.x v.hi.x f).1, (spread v.lo.y v.hi.y f).1⟩,
        ⟨(spread v.lo.x v.hi.x f).2, (spread v.lo.y v.hi.y f).2⟩⟩ := by
  obtain ⟨hlox, hhix⟩ := min_max_reach ((v.hi.x + v.lo.x) / 2) ((v.hi.x - v.lo.x) * f / 2)
  obtain ⟨hloy, hhiy⟩ := min_max_reach ((v.hi.y + v.lo.y) / 2) ((v.hi.y - v.lo.y) * f / 2)
  rw [scaled, ofCorners_exact]
  simp only [center, width, height, Nat.cast_ofNat]
  rw [hlox, hhix, hloy, hhiy]
  rfl

/-- A factor of larger magnitude reaches further on both sides. -/
theorem spread_widens (p q : K) {x y : K} (h : |x| ≤ |y|) :
    (spread p q y).1 ≤ (spread p q x).1 ∧ (spread p q x).2 ≤ (spread p q y).2 := by
  have hreach : |(q - p) * x / 2| ≤ |(q - p) * y / 2| := by
    rw [abs_div, abs_div, abs_mul, abs_mul]
    gcongr
  exact ⟨sub_le_sub_left hreach _, add_le_add_right hreach _⟩

/-- The sign of a factor does not matter, and a larger one gives a larger rectangle. -/
theorem contains_scaled_of_abs_le (v : Rect K) {x y : K} (h : |x| ≤ |y|) :
    (v.scaled y).contains (v.scaled x) = true := by
  obtain ⟨hlox, hhix⟩ := spread_widens v.lo.x v.hi.x h
  obtain ⟨hloy, hhiy⟩ := spread_widens v.lo.y v.hi.y h
  rw [scaled_exact, scaled_exact, contains_iff]
  exact ⟨hlox, hhix, hloy, hhiy⟩

/-- A negative factor turns the rectangle over, and its corners are put back in order. -/
theorem scaled_neg (v : Rect K) (x : K) : v.scaled (-x) = v.scaled x := by
  have hspread (p q : K) : spread p q (-x) = spread p q x := by
    rw [spread, mul_neg, neg_div, abs_neg]
    rfl
  rw [scaled_exact, scaled_exact, hspread, hspread]

private theorem spread_one {p q : K} (h : p ≤ q) : spread p q 1 = (p, q) := by
  rw [spread, mul_one, abs_of_nonneg (by linarith)]
  exact Prod.ext (by ring) (by ring)

/-- The factor one changes nothing. -/
theorem scaled_one (a b : Point K) : (ofCorners a b).scaled 1 = ofCorners a b := by
  rw [scaled_exact, ofCorners_exact]
  simp only [spread_one min_le_max]

end Rect

/-- The corners of a rectangle lie in the world. -/
def Rect.InWorld (v : Rect K) : Prop :=
  World.extent.holds v.lo = true ∧ World.extent.holds v.hi = true

/-- In exact numbers the world is all from -180 to 180 on both axes. -/
theorem World.holds_extent_iff {p : Point K} :
    World.extent.holds p = true ↔ -180 ≤ p.x ∧ p.x ≤ 180 ∧ -180 ≤ p.y ∧ p.y ≤ 180 := by
  rw [Rect.holds_iff]
  simp only [extent, lower, upper, Nat.cast_ofNat]

namespace Cell
variable [IsStrictOrderedRing K]

private theorem cast_corner (level n : Nat) :
    ((corner level n : ℚ) : K) = (n : K) * (360 / ((2 ^ level : Nat) : K)) + -180 := by
  unfold corner
  push_cast
  ring

private theorem cast_corner_succ (level n : Nat) :
    ((corner level (n + 1) : ℚ) : K) =
      (n : K) * (360 / ((2 ^ level : Nat) : K)) + -180 + 360 / ((2 ^ level : Nat) : K) := by
  rw [cast_corner]
  push_cast
  ring

private theorem rect_eq_corners (c : Cell) :
    (c.rect : Rect K) =
      ⟨⟨(corner c.level c.x : ℚ), (corner c.level c.y : ℚ)⟩,
        ⟨(corner c.level (c.x + 1) : ℚ), (corner c.level (c.y + 1) : ℚ)⟩⟩ := by
  rw [cast_corner_succ, cast_corner_succ, cast_corner, cast_corner]
  simp only [rect, side, World.side, World.lower, Nat.cast_ofNat]

instance nested_exact : Nested K where
  trans h h' := le_trans h h'
  ordered c := by
    rw [rect_eq_corners]
    exact ⟨Rat.cast_le.mpr (corner_mono _ (Nat.le_succ _)),
      Rat.cast_le.mpr (corner_mono _ (Nat.le_succ _))⟩
  child {c d} h := by
    obtain ⟨hlevel, hx, hy⟩ := mem_children_iff.mp h
    rw [rect_eq_corners, rect_eq_corners, hlevel, Rect.contains_iff]
    exact ⟨Rat.cast_le.mpr (corner_within hx).1, Rat.cast_le.mpr (corner_within hx).2,
      Rat.cast_le.mpr (corner_within hy).1, Rat.cast_le.mpr (corner_within hy).2⟩

private theorem corner_in_world {level n : Nat} (hn : n ≤ 2 ^ level) :
    (-180 : K) ≤ (corner level n : ℚ) ∧ ((corner level n : ℚ) : K) ≤ 180 := by
  have hlow : corner level 0 = -180 := by simp [corner]
  have hhigh : corner level (2 ^ level) = 180 := by
    rw [corner, Nat.cast_pow, Nat.cast_ofNat, mul_div_assoc, div_self (by positivity)]
    norm_num
  have hge := corner_mono level (Nat.zero_le n)
  have hle := corner_mono level hn
  rw [hlow] at hge
  rw [hhigh] at hle
  exact ⟨by exact_mod_cast hge, by exact_mod_cast hle⟩

/-- The squares of cells lie in the world. -/
theorem inWorld_rect (c : Cell) : (c.rect : Rect K).InWorld := by
  obtain ⟨hlox, hlox'⟩ := corner_in_world (K := K) c.x_lt.le
  obtain ⟨hloy, hloy'⟩ := corner_in_world (K := K) c.y_lt.le
  obtain ⟨hhix, hhix'⟩ := corner_in_world (K := K) (Nat.succ_le_of_lt c.x_lt)
  obtain ⟨hhiy, hhiy'⟩ := corner_in_world (K := K) (Nat.succ_le_of_lt c.y_lt)
  rw [Rect.InWorld, World.holds_extent_iff, World.holds_extent_iff, rect_eq_corners]
  exact ⟨⟨hlox, hlox', hloy, hloy'⟩, hhix, hhix', hhiy, hhiy'⟩

end Cell
end Gazetteer
