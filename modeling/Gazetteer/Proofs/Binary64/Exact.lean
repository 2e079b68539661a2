import Gazetteer.Proofs.Binary64.Rounding

/-! What rounding to the nearest number keeps. A representable number is rounded to itself, so an
operation whose exact result is representable gives that result; rounding does not go past a
representable number; and the error is at most half the space between numbers. -/
namespace Gazetteer.Binary64
open Float.Model.UnpackedFloat (Sign)

theorem Is.representable {x : Binary64} {p : ℚ} (h : x.Is p) : Representable p := by
  rcases h.parts with ⟨s, -, rfl⟩ | ⟨s, m, e, hm, -, hn, rfl⟩
  · exact ⟨0, 0, by norm_num, by norm_num, by norm_num, by norm_num⟩
  · refine ⟨s.apply m, e, ?_, hn.le_exponent, hn.exponent_le, rfl⟩
    have := hn.lt
    cases s <;> simp only [Sign.apply, abs_neg, Nat.abs_cast] <;> omega

private theorem representable_of_le {n t : Int} (hn : |n| ≤ 2 ^ 53) (ht : -1074 ≤ t)
    (ht' : t ≤ 970) : Representable (n * (2 : ℚ) ^ t) := by
  rcases hn.lt_or_eq with hn | hn
  · exact ⟨n, t, hn, ht, by omega, rfl⟩
  · have hhalf : ∃ s : Int, |s| = 2 ^ 52 ∧ n = s * 2 := by
      rcases abs_eq (by norm_num) |>.mp hn with rfl | rfl
      · exact ⟨2 ^ 52, rfl, by norm_num⟩
      · exact ⟨-2 ^ 52, rfl, by norm_num⟩
    obtain ⟨s, hs, rfl⟩ := hhalf
    refine ⟨s, t + 1, by rw [hs]; norm_num, by omega, by omega, ?_⟩
    rw [zpow_add_one₀ (by norm_num)]
    push_cast
    ring

theorem representable_two_pow {k : Int} (hk : -1074 ≤ k) (hk' : k ≤ 1023) :
    Representable (2 ^ k) := by
  rcases le_or_gt k 971 with hsmall | hlarge
  · exact ⟨1, k, by norm_num, hk, hsmall, by norm_num⟩
  · refine ⟨2 ^ 52, k - 52, by norm_num, by omega, by omega, ?_⟩
    rw [show k = 52 + (k - 52) by ring, zpow_add₀ (by norm_num), add_sub_cancel_left]
    norm_num

theorem Representable.neg {v : ℚ} (h : Representable v) : Representable (-v) := h.signed .negative

/-- Times a power of two, the number is representable or beyond all that are. -/
theorem Representable.mul_two_pow_cases {v : ℚ} (h : Representable v) (k : Nat) :
    Representable (v * 2 ^ k) ∨ 2 ^ (1024 : Int) ≤ |v * 2 ^ k| := by
  obtain ⟨M, E, hM, hE, -, rfl⟩ := h
  rw [mul_assoc, ← zpow_natCast, ← zpow_add₀ (by norm_num)]
  rcases le_or_gt (E + k) 971 with hsmall | hlarge
  · exact .inl ⟨M, E + k, hM, by omega, hsmall, rfl⟩
  · obtain ⟨N, hN⟩ := exists_multiple M hlarge.le
    rw [hN]
    rcases lt_or_ge |N| (2 ^ 53) with hlt | hge
    · exact .inl ⟨N, 971, hlt, by norm_num, le_rfl, rfl⟩
    · have hge : (2 : ℚ) ^ (53 : Int) ≤ |(N : ℚ)| := by exact_mod_cast hge
      right
      calc (2 : ℚ) ^ (1024 : Int) = 2 ^ (53 : Int) * 2 ^ (971 : Int) := by
            rw [← zpow_add₀ (by norm_num)]
            norm_num
        _ ≤ |(N : ℚ)| * 2 ^ (971 : Int) := mul_le_mul_of_nonneg_right hge (by positivity)
        _ = |(N : ℚ) * 2 ^ (971 : Int)| := by
            rw [abs_mul, abs_of_pos (by positivity : (0 : ℚ) < 2 ^ (971 : Int))]

theorem Representable.abs_le {v : ℚ} (h : Representable v) : |v| ≤ largest := by
  obtain ⟨M, E, hM, -, hE, rfl⟩ := h
  have hM' : ((|M| : Int) : ℚ) ≤ 2 ^ 53 - 1 := by exact_mod_cast Int.le_sub_one_of_lt hM
  rw [abs_mul, abs_of_pos (by positivity : (0 : ℚ) < 2 ^ E), ← Int.cast_abs]
  exact mul_le_mul hM' (zpow_le_zpow_right₀ (by norm_num) hE) (by positivity) (by norm_num)

namespace Rounded
variable {v r w : ℚ}

/-- Rounding leaves a representable number as it is. -/
theorem eq (h : Rounded v r) (hv : Representable v) : r = v := by
  have := h v hv
  rwa [sub_self, abs_zero, abs_nonpos_iff, sub_eq_zero] at this

/-- Rounding up does not go past a representable number. -/
theorem le (h : Rounded v r) (hw : Representable w) (hv : v ≤ w) : r ≤ w := by
  have := (le_abs_self _).trans (h w hw)
  rw [abs_of_nonneg (sub_nonneg.mpr hv)] at this
  exact (sub_le_sub_iff_right v).mp this

/-- Neither does rounding down. -/
theorem ge (h : Rounded v r) (hw : Representable w) (hv : w ≤ v) : w ≤ r := by
  have := (neg_le_abs _).trans (h w hw)
  rw [abs_of_nonpos (sub_nonpos.mpr hv)] at this
  linarith

theorem abs_le_of_abs_le (h : Rounded v r) (hw : Representable w) (hv : |v| ≤ w) : |r| ≤ w :=
  abs_le.mpr ⟨h.ge hw.neg (neg_le_of_abs_le hv), h.le hw (le_of_abs_le hv)⟩

theorem neg (h : Rounded v r) : Rounded (-v) (-r) := by
  intro w hw
  calc |-r - -v| = |r - v| := by rw [neg_sub_neg, abs_sub_comm]
    _ ≤ |-w - v| := h _ hw.neg
    _ = |w - -v| := by rw [← abs_neg, neg_sub', neg_neg]

/-- The error is at most half the space between numbers below a power of two. -/
theorem error_le {k : Int} (h : Rounded v r) (hk : -1021 ≤ k) (hk' : k ≤ 1023) (hv : |v| ≤ 2 ^ k) :
    |r - v| ≤ 2 ^ (k - 54) := by
  have hpos : (0 : ℚ) < 2 ^ (k - 53) := by positivity
  generalize hy : v / 2 ^ (k - 53) = y
  have hv' : v = y * 2 ^ (k - 53) := by rw [← hy, div_mul_cancel₀ _ hpos.ne']
  have hbound : |y| ≤ 2 ^ 53 := by
    rw [← hy, abs_div, abs_of_pos hpos, div_le_iff₀ hpos]
    calc |v| ≤ 2 ^ ((53 : Int) + (k - 53)) := by rwa [add_sub_cancel]
      _ = 2 ^ 53 * 2 ^ (k - 53) := by rw [zpow_add₀ (by norm_num), zpow_ofNat]
  have hround : |round y| ≤ 2 ^ 53 := by
    have hnear := abs_sub_round y
    have htriangle := abs_sub_abs_le_abs_sub (round y : ℚ) y
    rw [abs_sub_comm] at htriangle
    have hlt : ((|round y| : Int) : ℚ) < (2 ^ 53 + 1 : Int) := by
      push_cast
      linarith
    exact Int.le_of_lt_add_one (by exact_mod_cast hlt)
  calc |r - v| ≤ |round y * 2 ^ (k - 53) - v| :=
        h _ (representable_of_le hround (by omega) (by omega))
    _ = |y - round y| * 2 ^ (k - 53) := by
        rw [abs_sub_comm, hv', ← sub_mul, abs_mul, abs_of_pos hpos]
    _ ≤ 1 / 2 * 2 ^ (k - 53) := mul_le_mul_of_nonneg_right (abs_sub_round _) hpos.le
    _ = 2 ^ (k - 54) := by
        rw [show k - 53 = k - 54 + 1 by ring, zpow_add_one₀ (by norm_num)]
        ring

/-- The error is at most `2 ^ -53` of the number, if this is not among the smallest. -/
theorem error_le_mul (h : Rounded v r) (hlow : (2 : ℚ) ^ (-1022 : Int) ≤ |v|)
    (hhigh : |v| < 2 ^ (1023 : Int)) : |r - v| ≤ |v| * 2 ^ (-53 : Int) := by
  have hpos : 0 < |v| := hlow.trans_lt' (by positivity)
  obtain ⟨k, hle, hlt⟩ := exists_mem_Ico_zpow hpos (one_lt_two : (1 : ℚ) < 2)
  have hk : -1022 < k + 1 := (zpow_lt_zpow_iff_right₀ one_lt_two).mp (hlow.trans_lt hlt)
  have hk' : k < 1023 := (zpow_lt_zpow_iff_right₀ one_lt_two).mp (hle.trans_lt hhigh)
  calc |r - v| ≤ 2 ^ (k + 1 - 54) := h.error_le (by omega) (by omega) hlt.le
    _ = 2 ^ k * 2 ^ (-53 : Int) := by rw [← zpow_add₀ (by norm_num)]; congr 1; ring
    _ ≤ |v| * 2 ^ (-53 : Int) := mul_le_mul_of_nonneg_right hle (by positivity)

/-- Rounding changes a number of normal size by a tiny part of it at most. -/
theorem within (h : Rounded v r) (hlow : (2 : ℚ) ^ (-1022 : Int) ≤ v) (hhigh : v < 2 ^ (1023 : Int)) :
    v * (1 - 2 ^ (-53 : Int)) ≤ r ∧ r ≤ v * (1 + 2 ^ (-53 : Int)) := by
  have hpos : 0 ≤ v := hlow.trans' (by positivity)
  have herror := h.error_le_mul (hlow.trans_eq (abs_of_nonneg hpos).symm)
    ((abs_of_nonneg hpos).trans_lt hhigh)
  rw [abs_of_nonneg hpos] at herror
  obtain ⟨hge, hle⟩ := abs_sub_le_iff.mp herror
  constructor <;> linarith

end Rounded

section
variable {x y : Binary64} {p q : ℚ}

/-- A representable number is not changed by rounding. -/
theorem Nearest.is (h : x.Nearest p) (hp : Representable p) : x.Is p := by
  obtain ⟨r, hr, hround⟩ := h
  rwa [hround.eq hp] at hr

/-- A sum that is representable is computed exactly, and so are the other operations. -/
theorem Is.add (hx : x.Is p) (hy : y.Is q) (h : Representable (p + q)) : (x + y).Is (p + q) :=
  (nearest_add hx hy h.abs_le).is h

theorem Is.sub (hx : x.Is p) (hy : y.Is q) (h : Representable (p - q)) : (x - y).Is (p - q) :=
  (nearest_sub hx hy h.abs_le).is h

theorem Is.mul (hx : x.Is p) (hy : y.Is q) (h : Representable (p * q)) : (x * y).Is (p * q) :=
  (nearest_mul hx hy h.abs_le).is h

theorem Is.div (hx : x.Is p) (hy : y.Is q) (hq : q ≠ 0) (h : Representable (p / q)) :
    (x / y).Is (p / q) :=
  (nearest_div hx hy hq h.abs_le).is h

end

/-- Natural numbers below `2 ^ 53` are exact. -/
theorem Is.natCast {n : Nat} (h : n < 2 ^ 53) : (n : Binary64).Is n := by
  have hrep : Representable (n : ℚ) :=
    ⟨n, 0, by rw [Nat.abs_cast]; omega, by decide, by decide, by simp⟩
  exact (nearest_natCast (h.trans (by decide))).is hrep

theorem is_one : ((1 : Nat) : Binary64).Is 1 := by exact_mod_cast Is.natCast (n := 1) (by decide)

theorem is_two : ((2 : Nat) : Binary64).Is 2 := by exact_mod_cast Is.natCast (n := 2) (by decide)

theorem Is.two_pow {k : Nat} (h : k < 53) : ((2 ^ k : Nat) : Binary64).Is (2 ^ k) := by
  have hpow := Is.natCast (Nat.pow_lt_pow_right (by decide : 1 < 2) h)
  rwa [Nat.cast_pow] at hpow

end Gazetteer.Binary64
