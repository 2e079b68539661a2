import Gazetteer.Proofs.Binary64.Exact
import Gazetteer.Proofs.Binary64.Finiteness

/-! Rounding and order. The nearest numbers to two different rational numbers come in the order of
these, so sums, differences and products come in the order of the exact ones as long as they are
finite. Equal exact results are no obstacle: they come of the same operands, or are
representable. -/
namespace Gazetteer.Binary64

/-- Rounding does not turn an order over. -/
theorem Rounded.mono {v w r s : ℚ} (hr : Rounded v r) (hs : Rounded w s) (hr' : Representable r)
    (hs' : Representable s) (h : v < w) : r ≤ s := by
  -- If they changed places, the middle between them would part the first number from the second.
  by_contra hlt
  rw [not_le] at hlt
  have hfirst : (r - v) ^ 2 ≤ (s - v) ^ 2 := sq_le_sq.mpr (hr s hs')
  have hsecond : (s - w) ^ 2 ≤ (r - w) ^ 2 := sq_le_sq.mpr (hs r hr')
  nlinarith

theorem representable_zero : Representable 0 :=
  ⟨0, 0, by norm_num, by norm_num, by norm_num, by norm_num⟩

variable {x y z : Binary64} {p q r : ℚ}

private theorem Is.toFloat_eq (hx : x.Is p) (hy : y.Is p) : p = 0 ∨ x.toFloat = y.toFloat :=
  or_iff_not_imp_left.mpr fun hp => toFloat_congr (hx.unpacked_eq hy hp)

/-- Numbers nearest to two rational numbers are in the order of these. -/
theorem le_of_nearest {v w : ℚ} (hx : x.Nearest v) (hy : y.Nearest w) (h : v ≤ w)
    (heq : v = w → Representable v ∨ x = y) : x ≤ y := by
  obtain ⟨r, hr, hround⟩ := hx
  obtain ⟨s, hs, hround'⟩ := hy
  rw [hr.le_iff hs]
  rcases h.lt_or_eq with hlt | rfl
  · exact hround.mono hround' hr.representable hs.representable hlt
  · rcases heq rfl with hrep | rfl
    · rw [hround.eq hrep, hround'.eq hrep]
    · exact (hr.unique hs).le

section
variable (hz : z.Is r) (hx : x.Is p) (hy : y.Is q)
include hz hx hy

/-- Sums of finite numbers do not go down as an operand goes up, rounded as they are. -/
theorem add_mono (h : p ≤ q) (hx' : (z + x).isFinite = true) (hy' : (z + y).isFinite = true) :
    z + x ≤ z + y := by
  refine le_of_nearest (nearest_add_of_isFinite hz hx hx') (nearest_add_of_isFinite hz hy hy')
    (by linarith) fun heq => ?_
  obtain rfl : p = q := by linarith
  rcases hx.toFloat_eq hy with rfl | hsame
  · exact .inl (by rw [add_zero]; exact hz.representable)
  · exact .inr (congrArg (fun f => ofFloat (z.toFloat + f)) hsame)

/-- Differences go down as the second number goes up. -/
theorem sub_anti (h : p ≤ q) (hx' : (z - x).isFinite = true) (hy' : (z - y).isFinite = true) :
    z - y ≤ z - x := by
  refine le_of_nearest (nearest_sub_of_isFinite hz hy hy') (nearest_sub_of_isFinite hz hx hx')
    (by linarith) fun heq => ?_
  obtain rfl : p = q := by linarith
  rcases hx.toFloat_eq hy with rfl | hsame
  · exact .inl (by rw [sub_zero]; exact hz.representable)
  · exact .inr (congrArg (fun f => ofFloat (z.toFloat - f)) hsame.symm)

theorem mul_mono (h : r * p ≤ r * q) (hx' : (z * x).isFinite = true)
    (hy' : (z * y).isFinite = true) : z * x ≤ z * y := by
  refine le_of_nearest (nearest_mul_of_isFinite hz hx hx') (nearest_mul_of_isFinite hz hy hy') h
    fun heq => ?_
  rcases mul_eq_mul_left_iff.mp heq with rfl | rfl
  · rcases hx.toFloat_eq hy with rfl | hsame
    · exact .inl (by rw [mul_zero]; exact representable_zero)
    · exact .inr (congrArg (fun f => ofFloat (z.toFloat * f)) hsame)
  · exact .inl (by rw [zero_mul]; exact representable_zero)

end

/-- Half of a finite number is finite. -/
theorem nearest_half (hx : x.Is p) : (x / (2 : Nat)).Nearest (p / 2) := by
  refine nearest_div hx is_two two_ne_zero ?_
  rw [abs_div, abs_two]
  exact (div_le_self (abs_nonneg p) one_le_two).trans hx.representable.abs_le

theorem half_mono (hx : x.Is p) (hy : y.Is q) (h : p ≤ q) : x / (2 : Nat) ≤ y / (2 : Nat) := by
  refine le_of_nearest (nearest_half hx) (nearest_half hy) (by linarith) fun heq => ?_
  obtain rfl : p = q := by linarith
  rcases hx.toFloat_eq hy with rfl | hsame
  · exact .inl (by rw [zero_div]; exact representable_zero)
  · exact .inr (congrArg (fun f => ofFloat (f / _)) hsame)

end Gazetteer.Binary64
