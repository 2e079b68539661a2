import Gazetteer.Proofs.Binary64.Order

/-! Rounding. The sum, difference, product and quotient of two numbers are the nearest number there
is to the exact result, as long as this is not beyond the largest number. -/
namespace Gazetteer.Binary64
open Float.Model (Format UnpackedFloat totalExponent)
open Float.Model.UnpackedFloat

/-- A finite number stands for this rational number. -/
def Representable (v : ℚ) : Prop :=
  ∃ M E : Int, |M| < 2 ^ 53 ∧ -1074 ≤ E ∧ E ≤ 971 ∧ v = M * (2 : ℚ) ^ E

/-- A multiple of a power of two is a multiple of any smaller one. -/
theorem exists_multiple (M : Int) {t E : Int} (h : t ≤ E) :
    ∃ N : Int, (M : ℚ) * 2 ^ E = N * 2 ^ t := by
  obtain ⟨k, rfl⟩ : ∃ k : Nat, E = t + k := ⟨(E - t).toNat, by omega⟩
  refine ⟨M * 2 ^ k, ?_⟩
  rw [zpow_add₀ (by norm_num), zpow_natCast]
  push_cast
  ring

def largest : ℚ := (2 ^ 53 - 1) * 2 ^ (971 : Int)

/-- What a significand and the two bits after it tell of a magnitude, in units of the significand's
last place. -/
def Tells : ExtendedMantissa → ℚ → Prop
  | ⟨m, false, false⟩, y => y = m
  | ⟨m, false, true⟩, y => m < y ∧ y < m + 1 / 2
  | ⟨m, true, false⟩, y => y = m + 1 / 2
  | ⟨m, true, true⟩, y => m + 1 / 2 < y ∧ y < m + 1

theorem Tells.mantissa_le {x : ExtendedMantissa} {y : ℚ} (h : Tells x y) : x.mantissa ≤ y := by
  rcases x with ⟨m, _ | _, _ | _⟩
  · exact h.ge
  · exact h.1.le
  · exact h.ge.trans' (by simp)
  · exact h.1.le.trans' (by simp)

theorem Tells.lt_mantissa {x : ExtendedMantissa} {y : ℚ} (h : Tells x y) : y < x.mantissa + 1 := by
  rcases x with ⟨m, _ | _, _ | _⟩
  · exact h.trans_lt (by simp)
  · exact h.2.trans (by norm_num)
  · exact h.trans_lt (by norm_num)
  · exact h.2

private theorem Tells.rest {x : ExtendedMantissa} {y : ℚ} (h : Tells x y) :
    (x.roundBit || x.stickyBit) = false ∧ y = x.mantissa ∨
      (x.roundBit || x.stickyBit) = true ∧ x.mantissa < y := by
  rcases x with ⟨m, _ | _, _ | _⟩
  · exact .inl ⟨rfl, h⟩
  · exact .inr ⟨rfl, h.1⟩
  · exact .inr ⟨rfl, h.ge.trans_lt' (by simp)⟩
  · exact .inr ⟨rfl, h.1.trans' (by simp)⟩

private theorem Tells.shiftRightOne {x : ExtendedMantissa} {y : ℚ} (h : Tells x y) :
    Tells x.shiftRightOne (y / 2) := by
  have hlt := h.lt_mantissa
  have hm : ((x.mantissa % 2 : Nat) : ℚ) + 2 * (x.mantissa / 2 : Nat) = x.mantissa := by
    exact_mod_cast Nat.mod_add_div x.mantissa 2
  rw [← hm] at hlt
  unfold ExtendedMantissa.shiftRightOne
  rcases h.rest with ⟨hrest, hy⟩ | ⟨hrest, hy⟩ <;> rw [hrest] <;> rw [← hm] at hy <;>
    rcases Nat.mod_two_eq_zero_or_one x.mantissa with hbit | hbit <;> rw [hbit] at hy hlt ⊢ <;>
    push_cast at hy hlt
  · change y / 2 = _
    linarith
  · change y / 2 = _ + 1 / 2
    linarith
  · constructor <;> linarith
  · constructor <;> linarith

private theorem Tells.shiftRight {x : ExtendedMantissa} {y : ℚ} (h : Tells x y) (k : Nat) :
    Tells (x >>> k) (y / 2 ^ k) := by
  change Tells (k.repeat ExtendedMantissa.shiftRightOne x) _
  induction k with
  | zero => simpa [Nat.repeat] using h
  | succ k ih =>
    rw [Nat.repeat, pow_succ, ← div_div]
    exact ih.shiftRightOne

private theorem Tells.abs_sub_le {x : ExtendedMantissa} {y : ℚ} (h : Tells x y) :
    |(x.roundedMantissa : ℚ) - y| ≤ 1 / 2 := by
  rcases x with ⟨m, r, s⟩
  rw [abs_le]
  cases r <;> cases s <;>
    simp only [ExtendedMantissa.roundedMantissa, ExtendedMantissa.accuracy,
      Accuracy.roundToNearestEven, Tells] at h ⊢
  · constructor <;> linarith
  · constructor <;> linarith [h.1, h.2]
  · rcases Nat.mod_two_eq_zero_or_one m with hodd | hodd <;> rw [hodd] <;> push_cast <;>
      constructor <;> linarith
  · push_cast
    constructor <;> linarith [h.1, h.2]

private theorem targetExponent_eq (total : Int) :
    Format.binary64.targetExponent total = max (total - 53) (-1074) := rfl

private theorem target_totalExponent (m : Nat) (e : Int) :
    Format.binary64.targetExponent (totalExponent m e) = max ((m.log2 : Int) + e - 52) (-1074) := by
  rw [targetExponent_eq]
  congr 1
  simp only [totalExponent]
  ring

private theorem two_pow_log2_le {m : Nat} (hm : 0 < m) : (2 : ℚ) ^ (m.log2 : Int) ≤ m := by
  rw [zpow_natCast]
  exact_mod_cast Nat.log2_self_le hm.ne'

private theorem add_one_le_two_pow_log2 (m : Nat) : (m : ℚ) + 1 ≤ 2 ^ ((m.log2 : Int) + 1) := by
  have h : m + 1 ≤ 2 ^ (m.log2 + 1) := Nat.lt_log2_self
  have h' : (m : ℚ) + 1 ≤ 2 ^ (m.log2 + 1) := by exact_mod_cast h
  exact_mod_cast h'

/-- Shifting to a larger exponent keeps what is told of the magnitude. -/
theorem shiftToExponent_spec {m : Nat} {e t : Int} {a : Accuracy} {v : ℚ}
    (h : Tells (.ofMantissaAndAccuracy m a) (v / 2 ^ e)) (he : e ≤ t) :
    ∃ x, shiftToExponent m e a t = (x, t) ∧ Tells x (v / 2 ^ t) := by
  obtain ⟨k, rfl⟩ : ∃ k : Nat, t = e + k := ⟨(t - e).toNat, by omega⟩
  refine ⟨ExtendedMantissa.ofMantissaAndAccuracy m a >>> k, ?_, ?_⟩
  · simp only [shiftToExponent]
    rw [show (e + (k : Int) - e).toNat = k by omega]
  · rw [zpow_add₀ (by norm_num), zpow_natCast, ← div_div]
    exact h.shiftRight k

private theorem unit_bracket {m : Nat} {e t : Int} {a : Accuracy} {v : ℚ}
    (h : Tells (.ofMantissaAndAccuracy m a) (v / 2 ^ e)) (he : e ≤ t)
    (ht : t = max ((m.log2 : Int) + e - 52) (-1074)) :
    v / 2 ^ t < 2 ^ 53 ∧ (t = -1074 ∨ 2 ^ 52 ≤ v / 2 ^ t) := by
  have hm : (ExtendedMantissa.ofMantissaAndAccuracy m a).mantissa = m := by
    rcases a with _ | (_ | _ | _) <;> rfl
  have hle := h.mantissa_le
  have hlt := h.lt_mantissa
  rw [hm] at hle hlt
  rw [le_div_iff₀ (by positivity)] at hle
  rw [div_lt_iff₀ (by positivity)] at hlt
  constructor
  · rw [div_lt_iff₀ (by positivity), ← zpow_natCast (2 : ℚ) 53, ← zpow_add₀ (by norm_num)]
    calc v < (m + 1) * 2 ^ e := hlt
      _ ≤ 2 ^ ((m.log2 : Int) + 1) * 2 ^ e :=
        mul_le_mul_of_nonneg_right (add_one_le_two_pow_log2 m) (by positivity)
      _ = 2 ^ ((m.log2 : Int) + 1 + e) := (zpow_add₀ (by norm_num) ..).symm
      _ ≤ 2 ^ (((53 : Nat) : Int) + t) := zpow_le_zpow_right₀ (by norm_num) (by omega)
  · by_cases hmin : t = -1074
    · exact .inl hmin
    · right
      have hpos : 0 < m := by
        apply Nat.pos_of_ne_zero
        rintro rfl
        rw [Nat.log2_zero] at ht
        omega
      rw [le_div_iff₀ (by positivity), ← zpow_natCast (2 : ℚ) 52, ← zpow_add₀ (by norm_num)]
      calc (2 : ℚ) ^ (((52 : Nat) : Int) + t) = 2 ^ ((m.log2 : Int) + e) := by congr 1; omega
        _ = 2 ^ (m.log2 : Int) * 2 ^ e := zpow_add₀ (by norm_num) ..
        _ ≤ m * 2 ^ e := mul_le_mul_of_nonneg_right (two_pow_log2_le hpos) (by positivity)
        _ ≤ v := hle

private theorem abs_sub_le_of_int {y : ℚ} {r : Nat} (hr : |(r : ℚ) - y| ≤ 1 / 2) (n : Int) :
    |(r : ℚ) - y| ≤ |n - y| := by
  by_cases hn : n = r
  · rw [hn, Int.cast_natCast]
  · have hone : (1 : ℚ) ≤ |(n : ℚ) - r| := by
      have : 1 ≤ |n - r| := Int.one_le_abs (sub_ne_zero.mpr hn)
      exact_mod_cast this
    have := abs_sub_le (n : ℚ) y r
    rw [abs_sub_comm y] at this
    linarith

private theorem abs_sub_le_of_representable {v : ℚ} {t : Int} {r : Nat}
    (hr : |(r : ℚ) - v / 2 ^ t| ≤ 1 / 2) (hfull : t = -1074 ∨ 2 ^ 52 ≤ v / 2 ^ t) {w : ℚ}
    (hw : Representable w) : |r * 2 ^ t - v| ≤ |w - v| := by
  -- The numbers between multiples of the unit lie below the power of two where the unit starts.
  obtain ⟨M, E, hM, hE, -, rfl⟩ := hw
  have hpos : (0 : ℚ) < 2 ^ t := by positivity
  have hscale (z : ℚ) : |z * 2 ^ t - v| = |z - v / 2 ^ t| * 2 ^ t := by
    rw [← abs_of_pos hpos, ← abs_mul, abs_of_pos hpos, sub_mul, div_mul_cancel₀ _ hpos.ne']
  rw [hscale]
  by_cases hEt : t ≤ E
  · obtain ⟨N, hN⟩ := exists_multiple M hEt
    rw [hN, hscale]
    exact mul_le_mul_of_nonneg_right (abs_sub_le_of_int hr _) hpos.le
  · have hfull := hfull.resolve_left (by omega)
    have hbelow : (M : ℚ) * 2 ^ E ≤ 2 ^ 52 * 2 ^ t := by
      have hM' : (M : ℚ) ≤ 2 ^ 53 := by exact_mod_cast (le_abs_self M).trans hM.le
      calc (M : ℚ) * 2 ^ E ≤ 2 ^ 53 * 2 ^ E := mul_le_mul_of_nonneg_right hM' (by positivity)
        _ = 2 ^ 52 * 2 ^ (E + 1) := by rw [zpow_add_one₀ (by norm_num)]; ring
        _ ≤ 2 ^ 52 * 2 ^ t :=
          mul_le_mul_of_nonneg_left (zpow_le_zpow_right₀ (by norm_num) (by omega)) (by positivity)
    have hnearest := abs_sub_le_of_int hr (2 ^ 52)
    rw [Int.cast_pow, Int.cast_ofNat] at hnearest
    rw [abs_of_nonpos (sub_nonpos.mpr hfull)] at hnearest
    have hv : v = v / 2 ^ t * 2 ^ t := (div_mul_cancel₀ _ hpos.ne').symm
    calc |(r : ℚ) - v / 2 ^ t| * 2 ^ t ≤ -(2 ^ 52 - v / 2 ^ t) * 2 ^ t :=
          mul_le_mul_of_nonneg_right hnearest hpos.le
      _ = v - 2 ^ 52 * 2 ^ t := by rw [neg_sub, sub_mul, ← hv]
      _ ≤ v - M * 2 ^ E := by linarith
      _ ≤ |(M : ℚ) * 2 ^ E - v| := by rw [abs_sub_comm]; exact le_abs_self _

private theorem shiftToTargetExponent_rounded {r : Nat} {t : Int} (hr : r ≤ 2 ^ 53) (ht : -1074 ≤ t)
    (hfull : t = -1074 ∨ 2 ^ 52 ≤ r) :
    ∃ m e, shiftToTargetExponent Format.binary64 r t .exact = (⟨m, false, false⟩, e) ∧
      (m : ℚ) * 2 ^ e = r * 2 ^ t ∧ m < 2 ^ 53 ∧ t ≤ e ∧ (2 ^ 52 ≤ m ∨ e = -1074) := by
  -- A significand that has grown to 54 bits is a power of two, so halving it is exact.
  rcases hr.lt_or_eq with hr | rfl
  · have hlog : r.log2 ≤ 52 := by
      by_cases hzero : r = 0
      · rw [hzero, Nat.log2_zero]
        omega
      · exact Nat.le_of_lt_succ ((Nat.log2_lt hzero).mpr hr)
    refine ⟨r, t, ?_, rfl, hr, le_rfl, hfull.symm⟩
    simp only [shiftToTargetExponent, shiftToExponent, target_totalExponent]
    rw [show (max ((r.log2 : Int) + t - 52) (-1074) - t).toNat = 0 by omega]
    simp only [ExtendedMantissa.ofMantissaAndAccuracy, Int.natCast_zero, add_zero, Prod.mk.injEq,
      and_true]
    rfl
  · refine ⟨2 ^ 52, t + 1, ?_, ?_, by norm_num, by omega, .inl le_rfl⟩
    · simp only [shiftToTargetExponent, shiftToExponent, target_totalExponent, Nat.log2_two_pow]
      rw [show (max (((53 : Nat) : Int) + t - 52) (-1074) - t).toNat = 1 by omega]
      rfl
    · rw [zpow_add_one₀ (by norm_num)]
      push_cast
      ring

def signed : Sign → ℚ → ℚ
  | .positive, v => v
  | .negative, v => -v

private theorem ofParts_eq_signed (s : Sign) (m : Nat) (e : Int) :
    ofParts s m e = signed s (m * 2 ^ e) := by
  cases s
  · exact ofParts_negative m e
  · exact ofParts_positive m e

private theorem ofParts_neg (s : Sign) (m : Nat) (e : Int) : ofParts (-s) m e = -ofParts s m e := by
  rw [ofParts_eq_signed, ofParts_eq_signed]
  cases s
  · exact (neg_neg _).symm
  · rfl

private theorem abs_signed_sub (s : Sign) (v w : ℚ) : |signed s v - signed s w| = |v - w| := by
  cases s
  · rw [signed, signed, neg_sub_neg, abs_sub_comm]
  · rfl

private theorem signed_signed (s : Sign) (v : ℚ) : signed s (signed s v) = v := by
  cases s
  · exact neg_neg v
  · rfl

private theorem abs_signed (s : Sign) {v : ℚ} (h : 0 ≤ v) : |signed s v| = v := by
  cases s
  · rw [signed, abs_neg, abs_of_nonneg h]
  · exact abs_of_nonneg h

theorem Representable.signed {v : ℚ} (h : Representable v) (s : Sign) :
    Representable (signed s v) := by
  obtain ⟨M, E, hM, hE, hE', rfl⟩ := h
  cases s
  · exact ⟨-M, E, by rwa [abs_neg], hE, hE', by rw [Binary64.signed]; push_cast; ring⟩
  · exact ⟨M, E, hM, hE, hE', rfl⟩

theorem largest_lt : largest < 2 ^ (1024 : Int) := by
  have hpos : (0 : ℚ) < 2 ^ (971 : Int) := by positivity
  rw [largest, show (1024 : Int) = 971 + 53 from rfl, zpow_add₀ (by norm_num), mul_comm]
  exact mul_lt_mul_of_pos_left (by norm_num) hpos

private theorem representable_largest : Representable largest :=
  ⟨2 ^ 53 - 1, 971, by norm_num, by norm_num, le_rfl, by rw [largest]; norm_num⟩

/-- No representable number is nearer to the first number than the second is. -/
def Rounded (v r : ℚ) : Prop := ∀ w, Representable w → |r - v| ≤ |w - v|

private theorem rounded_self (v : ℚ) : Rounded v v := by
  intro w _
  rw [sub_self, abs_zero]
  exact abs_nonneg _

/-- Parts settle at a number that is nearest to a rational number. -/
def NearestParts (f : UnpackedFloat) (v : ℚ) : Prop :=
  ∃ r : ℚ, placeOf (settled f) = some (r : WithTop ℚ) ∧ Rounded v r

/-- Parts settle at a number that is nearest to a rational number, if this is not beyond the largest
number or they settle at a finite one at all. -/
def Rounds (f : UnpackedFloat) (v : ℚ) : Prop :=
  |v| ≤ largest ∨ (settled f).isFinite = true → NearestParts f v

private theorem settled_finite {s : Sign} {m : Nat} {e : Int} {hm : 0 < m} (h : Normal m e) :
    placeOf (settled (.finite s m e hm)) = some ((ofParts s m e : ℚ) : WithTop ℚ) := by
  rw [settled, unpack_pack (show Proper (.finite s m e hm) from h)]
  rfl

private theorem settled_zero (s : Sign) :
    placeOf (settled (.zero s)) = some ((0 : ℚ) : WithTop ℚ) := by
  cases s <;> rfl

/-- The parts that a magnitude is rounded to. They are those of a number, but that the exponent may
be too large. -/
structure RoundedParts (v : ℚ) (m : Nat) (e : Int) : Prop where
  lt : m < 2 ^ 53
  le_exponent : -1074 ≤ e
  full : 2 ^ 52 ≤ m ∨ e = -1074
  nearest : ∀ w, Representable w → |(m : ℚ) * 2 ^ e - v| ≤ |w - v|
  lt_bound : v < 2 ^ (53 + e)

namespace RoundedParts
variable {m : Nat} {e : Int} {v : ℚ}

/-- Rounding does not go past the largest number, so the exponent is not too large. -/
theorem exponent_le (h : RoundedParts v m e) (hv : v ≤ largest) : e ≤ 971 := by
  have hmax : (m : ℚ) * 2 ^ e ≤ largest := by
    have := (le_abs_self _).trans (h.nearest _ representable_largest)
    rw [abs_of_nonneg (sub_nonneg.mpr hv)] at this
    linarith
  by_contra hgt
  have hfull : (2 : ℚ) ^ 52 ≤ m := by exact_mod_cast h.full.resolve_right (by omega)
  have hpow : (2 : ℚ) ^ (972 : Int) ≤ 2 ^ e := zpow_le_zpow_right₀ (by norm_num) (by omega)
  have := mul_le_mul hfull hpow (by positivity) (by positivity)
  rw [← zpow_natCast, ← zpow_add₀ (by norm_num)] at this
  exact absurd (this.trans hmax) (not_le.mpr largest_lt)

private theorem exponent_gt (h : RoundedParts v m e) (hv : 2 ^ (1024 : Int) ≤ v) : 972 ≤ e := by
  have := (zpow_lt_zpow_iff_right₀ (one_lt_two : (1 : ℚ) < 2)).mp (hv.trans_lt h.lt_bound)
  omega

end RoundedParts

def partsOf (s : Sign) (m : Nat) (e : Int) : UnpackedFloat :=
  if hm : m = 0 then .zero s else .finite s m e (Nat.pos_of_ne_zero hm)

private theorem exists_roundWithAccuracy {m : Nat} {e : Int} {a : Accuracy} {v : ℚ}
    (h : Tells (.ofMantissaAndAccuracy m a) (v / 2 ^ e))
    (he : e ≤ max ((m.log2 : Int) + e - 52) (-1074)) (s : Sign) :
    ∃ m' e', RoundedParts v m' e' ∧
      roundWithAccuracy Format.binary64 s m e a = partsOf s m' e' := by
  generalize ht : max ((m.log2 : Int) + e - 52) (-1074) = t at he
  obtain ⟨x, hx, htells⟩ := shiftToExponent_spec h he
  obtain ⟨hlt, hfull⟩ := unit_bracket h he ht.symm
  have hr := htells.abs_sub_le
  generalize hround : x.roundedMantissa = r at hr
  have hr' : r ≤ 2 ^ 53 ∧ (t = -1074 ∨ 2 ^ 52 ≤ r) := by
    have := abs_le.mp hr
    constructor
    · have : (r : ℚ) < (2 ^ 53 : Nat) + 1 := by push_cast; linarith
      exact Nat.le_of_lt_succ (by exact_mod_cast this)
    · refine hfull.imp_right fun hfull => ?_
      have : ((2 ^ 52 : Nat) : ℚ) < r + 1 := by push_cast; linarith
      exact Nat.le_of_lt_succ (by exact_mod_cast this)
  obtain ⟨m', e', hshift, hval, hm', he', hfull'⟩ :=
    shiftToTargetExponent_rounded hr'.1 (by omega) hr'.2
  refine ⟨m', e', ⟨hm', by omega, hfull', fun w hw => ?_, ?_⟩, ?_⟩
  · rw [hval]
    exact abs_sub_le_of_representable hr hfull hw
  · calc v < 2 ^ 53 * 2 ^ t := (div_lt_iff₀ (by positivity)).mp hlt
      _ = 2 ^ (53 + t) := by rw [zpow_add₀ (by norm_num), zpow_ofNat]
      _ ≤ 2 ^ (53 + e') := zpow_le_zpow_right₀ (by norm_num) (by omega)
  · have hfirst : shiftToTargetExponent Format.binary64 m e a = (x, t) := by
      simp only [shiftToTargetExponent, target_totalExponent, ht, hx]
    simp only [roundWithAccuracy, hfirst, hround, hshift]
    rfl

namespace RoundedParts
variable {m : Nat} {e : Int} {v : ℚ}

private theorem nearestParts (h : RoundedParts v m e) (he : e ≤ 971) (s : Sign) :
    NearestParts (partsOf s m e) (signed s v) := by
  refine ⟨signed s (m * 2 ^ e), ?_, fun w hw => ?_⟩
  · unfold partsOf
    split
    · next hzero =>
      rw [settled_zero, hzero]
      cases s <;> simp [signed]
    · rw [settled_finite ⟨h.lt, h.le_exponent, he, h.full⟩, ofParts_eq_signed]
  · rw [abs_signed_sub, ← signed_signed s w, abs_signed_sub]
    exact h.nearest _ (hw.signed s)

private theorem settled_eq (h : RoundedParts v m e) (he : 972 ≤ e) (s : Sign) :
    settled (partsOf s m e) = .infinity s := by
  have hm : 0 < m := by
    have := h.full.resolve_right (by omega)
    omega
  rw [partsOf, dif_neg hm.ne', settled_of_large s hm he]

/-- What is not beyond the largest number, or settles at a finite number at all, settles at a
nearest one. -/
theorem rounds (h : RoundedParts v m e) (hv : 0 ≤ v) (s : Sign) :
    Rounds (partsOf s m e) (signed s v) := by
  rintro (hle | hfinite)
  · rw [abs_signed s hv] at hle
    exact h.nearestParts (h.exponent_le hle) s
  · refine h.nearestParts (Int.not_lt.mp fun hgt => ?_) s
    rw [h.settled_eq hgt] at hfinite
    cases hfinite

end RoundedParts

private theorem rounds_roundWithAccuracy {m : Nat} {e : Int} {a : Accuracy} {v : ℚ}
    (h : Tells (.ofMantissaAndAccuracy m a) (v / 2 ^ e))
    (he : e ≤ max ((m.log2 : Int) + e - 52) (-1074)) (hv : 0 ≤ v) (s : Sign) :
    Rounds (roundWithAccuracy Format.binary64 s m e a) (signed s v) := by
  obtain ⟨m', e', hparts, hround⟩ := exists_roundWithAccuracy h he s
  rw [hround]
  exact hparts.rounds hv s

/-- The number is nearest to a rational number. -/
def Nearest (x : Binary64) (v : ℚ) : Prop := ∃ r, x.Is r ∧ Rounded v r

private theorem Rounds.nearest {x : Binary64} {f : UnpackedFloat} {v : ℚ} (h : Rounds f v)
    (hx : x.unpacked = settled f) (hv : |v| ≤ largest ∨ x.isFinite = true) : x.Nearest v := by
  rw [isFinite_eq_unpacked, hx] at hv
  obtain ⟨r, hr, hnearest⟩ := h hv
  exact ⟨r, by rw [Is, place, hx, hr], hnearest⟩

private theorem log2_mul_two_pow {n : Nat} (hn : 0 < n) (k : Nat) :
    (n * 2 ^ k).log2 = n.log2 + k := by
  induction k with
  | zero => rw [pow_zero, mul_one, Nat.add_zero]
  | succ k ih =>
    have hne : n * 2 ^ k ≠ 0 := by positivity
    rw [pow_succ, ← mul_assoc, mul_comm, Nat.log2_two_mul hne, ih, Nat.add_assoc]

theorem tells_exact (m : Nat) : Tells (.ofMantissaAndAccuracy m .exact) m := rfl

theorem shiftLeft_mul_zpow (m : Nat) (e : Int) (k : Nat) :
    ((m <<< k : Nat) : ℚ) * 2 ^ (e - k) = m * 2 ^ e := by
  rw [Nat.shiftLeft_eq, zpow_sub₀ (by norm_num), zpow_natCast]
  push_cast
  field_simp

private theorem rounds_round {m : Nat} (hm : 0 < m) (e : Int) (s : Sign) :
    Rounds (UnpackedFloat.round Format.binary64 s m e) (ofParts s m e) := by
  simp only [UnpackedFloat.round, decreaseExponent, target_totalExponent]
  generalize hk : (e - max ((m.log2 : Int) + e - 52) (-1074)).toNat = k
  -- More low bits do not move the unit of rounding.
  have hlog : (m <<< k).log2 = m.log2 + k := by rw [Nat.shiftLeft_eq, log2_mul_two_pow hm]
  rw [ofParts_eq_signed, ← shiftLeft_mul_zpow m e k]
  refine rounds_roundWithAccuracy ?_ (by omega) (by positivity) s
  rw [mul_div_cancel_right₀ _ (by positivity)]
  exact tells_exact _

/-- A signed significand and an exponent are rounded. -/
theorem rounds_normalize (n e : Int) (z : Sign) :
    Rounds (UnpackedFloat.normalize Format.binary64 n e z) (n * 2 ^ e) := by
  have hsigned (s : Sign) (m : Nat) (hm : 0 < m) (hn : n = s.apply m) :
      Rounds (UnpackedFloat.round Format.binary64 s m e) (n * 2 ^ e) := by
    have hparts : (n * (2 : ℚ) ^ e : ℚ) = ofParts s m e := by rw [hn]; rfl
    rw [hparts]
    exact rounds_round hm e s
  unfold UnpackedFloat.normalize
  rcases lt_trichotomy n 0 with hn | rfl | hn
  · rw [compare_lt_iff_lt.mpr hn]
    exact hsigned .negative _ (by omega) (by simp only [Sign.apply]; omega)
  · refine fun _ => ⟨0, settled_zero z, ?_⟩
    rw [Int.cast_zero, zero_mul]
    exact rounded_self 0
  · rw [compare_gt_iff_gt.mpr hn]
    exact hsigned .positive _ (by omega) (by simp only [Sign.apply]; omega)

private theorem rounds_of_placeOf {f : UnpackedFloat} {v : ℚ}
    (h : placeOf (settled f) = some (v : WithTop ℚ)) : Rounds f v :=
  fun _ => ⟨v, h, rounded_self v⟩

private theorem ofParts_decreaseExponent (s : Sign) (m : Nat) {e t : Int} (h : t ≤ e) :
    (s.apply (decreaseExponent m e t).1 : Int) * (2 : ℚ) ^ t = ofParts s m e := by
  have hval := shiftLeft_mul_zpow m e (e - t).toNat
  rw [show e - ((e - t).toNat : Int) = t by omega] at hval
  rw [ofParts_eq_signed, ← hval, ← ofParts_eq_signed]
  rfl

section
variable {x y : Binary64} {p q : ℚ}

private theorem rounds_add (hx : x.Is p) (hy : y.Is q) :
    Rounds (UnpackedFloat.add Format.binary64 x.unpacked y.unpacked) (p + q) := by
  rcases hx.parts with ⟨s, hs, rfl⟩ | ⟨s, m, e, hm, hs, hn, rfl⟩ <;>
    rcases hy.parts with ⟨s', hs', rfl⟩ | ⟨s', m', e', hm', hs', hn', rfl⟩ <;> rw [hs, hs']
  · cases s <;> cases s' <;> exact rounds_of_placeOf (by rw [add_zero]; rfl)
  · rw [zero_add]
    exact rounds_of_placeOf (settled_finite hn')
  · rw [add_zero]
    exact rounds_of_placeOf (settled_finite hn)
  · have hsum : ofParts s m e + ofParts s' m' e' =
        ((s.apply (decreaseExponent m e (min e e')).1 +
          s'.apply (decreaseExponent m' e' (min e e')).1 : Int) : ℚ) * 2 ^ min e e' := by
      rw [Int.cast_add, add_mul, ofParts_decreaseExponent s m (min_le_left e e'),
        ofParts_decreaseExponent s' m' (min_le_right e e')]
    rw [hsum]
    exact rounds_normalize _ _ .positive

private theorem rounds_sub (hx : x.Is p) (hy : y.Is q) :
    Rounds (UnpackedFloat.sub Format.binary64 x.unpacked y.unpacked) (p - q) := by
  rcases hx.parts with ⟨s, hs, rfl⟩ | ⟨s, m, e, hm, hs, hn, rfl⟩ <;>
    rcases hy.parts with ⟨s', hs', rfl⟩ | ⟨s', m', e', hm', hs', hn', rfl⟩ <;> rw [hs, hs']
  · cases s <;> cases s' <;> exact rounds_of_placeOf (by rw [sub_zero]; rfl)
  · rw [zero_sub, ← ofParts_neg]
    exact rounds_of_placeOf (settled_finite hn')
  · rw [sub_zero]
    exact rounds_of_placeOf (settled_finite hn)
  · have hdifference : ofParts s m e - ofParts s' m' e' =
        ((s.apply (decreaseExponent m e (min e e')).1 -
          s'.apply (decreaseExponent m' e' (min e e')).1 : Int) : ℚ) * 2 ^ min e e' := by
      rw [Int.cast_sub, sub_mul, ofParts_decreaseExponent s m (min_le_left e e'),
        ofParts_decreaseExponent s' m' (min_le_right e e')]
    rw [hdifference]
    exact rounds_normalize _ _ .positive

/-- A sum that is not too large is the number nearest to the exact sum. -/
theorem nearest_add (hx : x.Is p) (hy : y.Is q) (h : |p + q| ≤ largest) :
    (x + y).Nearest (p + q) := (rounds_add hx hy).nearest (unpacked_add x y) (.inl h)

theorem nearest_sub (hx : x.Is p) (hy : y.Is q) (h : |p - q| ≤ largest) :
    (x - y).Nearest (p - q) := (rounds_sub hx hy).nearest (unpacked_sub x y) (.inl h)

/-- A sum that is finite is nearest to the exact one, however large this is. -/
theorem nearest_add_of_isFinite (hx : x.Is p) (hy : y.Is q) (h : (x + y).isFinite = true) :
    (x + y).Nearest (p + q) := (rounds_add hx hy).nearest (unpacked_add x y) (.inr h)

/-- So is a difference. -/
theorem nearest_sub_of_isFinite (hx : x.Is p) (hy : y.Is q) (h : (x - y).isFinite = true) :
    (x - y).Nearest (p - q) := (rounds_sub hx hy).nearest (unpacked_sub x y) (.inr h)

private theorem signed_mul (s s' : Sign) (v w : ℚ) :
    signed s v * signed s' w = signed (s * s') (v * w) := by
  cases s <;> cases s'
  · exact neg_mul_neg v w
  · exact neg_mul v w
  · exact mul_neg v w
  · rfl

private theorem signed_div (s s' : Sign) (v w : ℚ) :
    signed s v / signed s' w = signed (s / s') (v / w) := by
  cases s <;> cases s'
  · exact neg_div_neg_eq v w
  · exact neg_div w v
  · exact div_neg v
  · rfl

private theorem le_target_mul {m m' : Nat} {e e' : Int} (hm : 0 < m) (hm' : 0 < m')
    (hn : Normal m e) (hn' : Normal m' e') :
    e + e' ≤ max (((m * m').log2 : Int) + (e + e') - 52) (-1074) := by
  -- Either factor fills its bits, and then the product does, or both are the smallest there are.
  have hfull {a b : Nat} (ha : 2 ^ 52 ≤ a) (hb : 0 < b) : 52 ≤ (a * b).log2 :=
    (Nat.le_log2 (Nat.mul_pos (by omega) hb).ne').mpr (ha.trans (Nat.le_mul_of_pos_right a hb))
  rcases hn.full with hfill | rfl
  · have := hfull hfill hm'
    omega
  · rcases hn'.full with hfill | rfl
    · have := hfull hfill hm
      rw [mul_comm] at this
      omega
    · omega

private theorem roundedParts_zero : RoundedParts 0 0 (-1074) :=
  ⟨by norm_num, le_rfl, .inr rfl, fun w _ => by simp, by positivity⟩

private theorem exists_mul_parts (hx : x.Is p) (hy : y.Is q) :
    ∃ s v m e, p * q = signed s v ∧ 0 ≤ v ∧ RoundedParts v m e ∧
      (x * y).unpacked = settled (partsOf s m e) := by
  rw [unpacked_mul]
  have hzero (s : Sign) : ∃ s' v m e, (0 : ℚ) = signed s' v ∧ 0 ≤ v ∧ RoundedParts v m e ∧
      settled (.zero s) = settled (partsOf s' m e) :=
    ⟨s, 0, 0, -1074, by cases s <;> simp [signed], le_rfl, roundedParts_zero, rfl⟩
  rcases hx.parts with ⟨s, hs, rfl⟩ | ⟨s, m, e, hm, hs, hn, rfl⟩ <;>
    rcases hy.parts with ⟨s', hs', rfl⟩ | ⟨s', m', e', hm', hs', hn', rfl⟩ <;> rw [hs, hs']
  · rw [zero_mul]
    exact hzero (s * s')
  · rw [zero_mul]
    exact hzero (s * s')
  · rw [mul_zero]
    exact hzero (s * s')
  · have hmag : (m : ℚ) * 2 ^ e * (m' * 2 ^ e') = ((m * m' : Nat) : ℚ) * 2 ^ (e + e') := by
      rw [zpow_add₀ (by norm_num)]
      push_cast
      ring
    rw [ofParts_eq_signed, ofParts_eq_signed, signed_mul, hmag]
    have htells : Tells (.ofMantissaAndAccuracy (m * m') .exact)
        (((m * m' : Nat) : ℚ) * 2 ^ (e + e') / 2 ^ (e + e')) := by
      rw [mul_div_cancel_right₀ _ (by positivity)]
      exact tells_exact _
    obtain ⟨r, t, hparts, hround⟩ :=
      exists_roundWithAccuracy htells (le_target_mul hm hm' hn hn') (s * s')
    exact ⟨_, _, r, t, rfl, by positivity, hparts, congrArg settled hround⟩

private theorem nearest_mul_of (hx : x.Is p) (hy : y.Is q)
    (h : |p * q| ≤ largest ∨ (x * y).isFinite = true) : (x * y).Nearest (p * q) := by
  obtain ⟨s, v, m, e, hpq, hv, hparts, hxy⟩ := exists_mul_parts hx hy
  rw [hpq] at h ⊢
  exact (hparts.rounds hv s).nearest hxy h

/-- A product that is not too large is the number nearest to the exact product. -/
theorem nearest_mul (hx : x.Is p) (hy : y.Is q) (h : |p * q| ≤ largest) :
    (x * y).Nearest (p * q) := nearest_mul_of hx hy (.inl h)

/-- A product that is finite is nearest to the exact one, however large this is. -/
theorem nearest_mul_of_isFinite (hx : x.Is p) (hy : y.Is q) (h : (x * y).isFinite = true) :
    (x * y).Nearest (p * q) := nearest_mul_of hx hy (.inr h)

/-- A product beyond all finite numbers is the infinity on its side. -/
theorem unpacked_mul_of_large (hx : x.Is p) (hy : y.Is q) (h : 2 ^ (1024 : Int) ≤ |p * q|) :
    ∃ s, (x * y).unpacked = .infinity s ∧ p * q = signed s |p * q| := by
  obtain ⟨s, v, m, e, hpq, hv, hparts, hxy⟩ := exists_mul_parts hx hy
  rw [hpq, abs_signed s hv] at h ⊢
  exact ⟨s, hxy.trans (hparts.settled_eq (hparts.exponent_gt h) s), rfl⟩

/-- Too large a product is not finite. -/
theorem isFinite_mul_of_large (hx : x.Is p) (hy : y.Is q) (h : 2 ^ (1024 : Int) ≤ |p * q|) :
    (x * y).isFinite = false := by
  obtain ⟨s, hs, -⟩ := unpacked_mul_of_large hx hy h
  rw [isFinite_eq_unpacked, hs]
  rfl

private theorem two_pow_lt_quotient {m m' : Nat} (hm : 0 < m) (hm' : 0 < m') (e e' : Int) :
    (2 : ℚ) ^ ((m.log2 : Int) + e - (m'.log2 + 1 + e')) < m * 2 ^ e / (m' * 2 ^ e') := by
  have hpos : (0 : ℚ) < m' * 2 ^ e' := by positivity
  have hlow : (2 : ℚ) ^ (m.log2 : Int) * 2 ^ e ≤ m * 2 ^ e :=
    mul_le_mul_of_nonneg_right (two_pow_log2_le hm) (by positivity)
  have hup : (m' : ℚ) * 2 ^ e' < 2 ^ ((m'.log2 : Int) + 1) * 2 ^ e' :=
    mul_lt_mul_of_pos_right ((lt_add_one _).trans_le (add_one_le_two_pow_log2 m')) (by positivity)
  rw [zpow_sub₀ (by norm_num), zpow_add₀ (by norm_num) (m.log2 : Int),
    zpow_add₀ (by norm_num) ((m'.log2 : Int) + 1), lt_div_iff₀ hpos, div_mul_eq_mul_div,
    div_lt_iff₀ (by positivity)]
  exact mul_lt_mul' hlow hup hpos.le (by positivity)

private theorem tells_fraction (n : Nat) {d : Nat} (hd : 0 < d) :
    Tells (.ofMantissaAndAccuracy (n / d) (accuracyOfFraction (n % d) d)) (n / d) := by
  have hd' : (0 : ℚ) < d := by exact_mod_cast hd
  have hn : (n : ℚ) / d = (n / d : Nat) + (n % d : Nat) / d := by
    rw [eq_comm, add_div' _ _ _ hd'.ne', div_left_inj' hd'.ne', mul_comm]
    exact_mod_cast Nat.div_add_mod n d
  have hlt : ((n % d : Nat) : ℚ) / d < 1 := by
    rw [div_lt_one hd']
    exact_mod_cast Nat.mod_lt n hd
  rw [hn]
  unfold accuracyOfFraction
  split
  · next hzero =>
    rw [hzero, Nat.cast_zero, zero_div, add_zero]
    exact tells_exact _
  · next hne =>
    have hpos : (0 : ℚ) < (n % d : Nat) / d := by
      have : (0 : ℚ) < (n % d : Nat) := by exact_mod_cast Nat.pos_of_ne_zero hne
      positivity
    rcases lt_trichotomy (2 * (n % d)) d with hc | hc | hc
    · rw [compare_lt_iff_lt.mpr hc]
      have : ((n % d : Nat) : ℚ) / d < 1 / 2 := by
        rw [div_lt_div_iff₀ hd' two_pos, one_mul, mul_comm]
        exact_mod_cast hc
      exact ⟨lt_add_of_pos_right _ hpos, by linarith⟩
    · rw [compare_eq_iff_eq.mpr hc]
      have : ((n % d : Nat) : ℚ) / d = 1 / 2 := by
        rw [div_eq_div_iff hd'.ne' two_ne_zero, one_mul, mul_comm]
        exact_mod_cast hc
      exact congrArg _ this
    · rw [compare_gt_iff_gt.mpr hc]
      have : 1 / 2 < ((n % d : Nat) : ℚ) / d := by
        rw [div_lt_div_iff₀ two_pos hd', one_mul, mul_comm]
        exact_mod_cast hc
      exact ⟨by linarith, by linarith⟩

private theorem divCore_spec {m m' : Nat} (hm : 0 < m) (hm' : 0 < m') (e e' : Int) :
    ∃ Q t a, divCore Format.binary64 m e m' e' = (Q, t, a) ∧
      Tells (.ofMantissaAndAccuracy Q a) (m * 2 ^ e / (m' * 2 ^ e') / 2 ^ t) ∧
      t ≤ max ((Q.log2 : Int) + t - 52) (-1074) := by
  -- Long division goes on until the quotient fills its bits, or its unit is the smallest.
  have hbelow := two_pow_lt_quotient hm hm' e e'
  have htarget : Format.binary64.targetExponent (totalExponent m e - totalExponent m' e') =
      max ((m.log2 : Int) + e - (m'.log2 + 1 + e') - 52) (-1074) := by
    rw [targetExponent_eq]
    congr 1
    simp only [totalExponent]
    ring
  obtain ⟨t, ht⟩ : ∃ t, t =
      min (e - e') (max ((m.log2 : Int) + e - (m'.log2 + 1 + e') - 52) (-1074)) := ⟨_, rfl⟩
  obtain ⟨k, hk⟩ : ∃ k : Nat, e = e' + t + k := ⟨(e - e' - t).toNat, by omega⟩
  have hquotient : (m : ℚ) * 2 ^ e / (m' * 2 ^ e') / 2 ^ t = (m <<< k : Nat) / m' := by
    rw [hk, zpow_add₀ (by norm_num), zpow_add₀ (by norm_num), Nat.shiftLeft_eq, zpow_natCast]
    push_cast
    field_simp
  refine ⟨m <<< k / m', t, accuracyOfFraction (m <<< k % m') m', ?_, ?_, ?_⟩
  · simp only [divCore, htarget, ← ht]
    rw [show (e - e' - t).toNat = k by omega]
  · rw [hquotient]
    exact tells_fraction _ hm'
  · by_cases hmin : t ≤ -1074
    · omega
    have hfill : (2 : ℚ) ^ (52 : Int) < (m <<< k : Nat) / m' := by
      rw [← hquotient, lt_div_iff₀ (by positivity), ← zpow_add₀ (by norm_num)]
      exact (zpow_le_zpow_right₀ (by norm_num) (by omega)).trans_lt hbelow
    rw [lt_div_iff₀ (by positivity)] at hfill
    have hle : 2 ^ 52 ≤ m <<< k / m' :=
      (Nat.le_div_iff_mul_le hm').mpr (by exact_mod_cast hfill.le)
    have := (Nat.le_log2 (by omega)).mpr hle
    omega

/-- A quotient that is not too large is the number nearest to the exact quotient. -/
theorem nearest_div (hx : x.Is p) (hy : y.Is q) (hq : q ≠ 0) (h : |p / q| ≤ largest) :
    (x / y).Nearest (p / q) := by
  refine Rounds.nearest ?_ (unpacked_div x y) (.inl h)
  rcases hy.parts with ⟨s', hs', rfl⟩ | ⟨s', m', e', hm', hs', hn', rfl⟩
  · exact absurd rfl hq
  rcases hx.parts with ⟨s, hs, rfl⟩ | ⟨s, m, e, hm, hs, hn, rfl⟩ <;> rw [hs, hs']
  · rw [zero_div]
    exact rounds_of_placeOf (settled_zero (s / s'))
  · obtain ⟨Q, t, a, hcore, htells, ht⟩ := divCore_spec hm hm' e e'
    rw [ofParts_eq_signed, ofParts_eq_signed, signed_div]
    simp only [UnpackedFloat.div, hcore]
    exact rounds_roundWithAccuracy htells ht (by positivity) _

end

theorem two_pow_le_largest {k : Int} (h : k ≤ 1023) : (2 : ℚ) ^ k ≤ largest := by
  have hpos : (0 : ℚ) < 2 ^ (971 : Int) := by positivity
  calc (2 : ℚ) ^ k ≤ 2 ^ (971 + 52 : Int) := zpow_le_zpow_right₀ (by norm_num) h
    _ = 2 ^ 52 * 2 ^ (971 : Int) := by rw [zpow_add₀ (by norm_num), mul_comm, zpow_ofNat]
    _ ≤ largest := mul_le_mul_of_nonneg_right (by norm_num) hpos.le

theorem natCast_le_largest {n : Nat} (h : n < 2 ^ 64) : (n : ℚ) ≤ largest := by
  have hn : (n : ℚ) ≤ 2 ^ (64 : Int) := by exact_mod_cast h.le
  exact hn.trans (two_pow_le_largest (by norm_num))

/-- A natural number that fits 64 bits is cast to the nearest number. -/
theorem nearest_natCast {n : Nat} (h : n < 2 ^ 64) : (n : Binary64).Nearest n := by
  have hcast := unpacked_natCast n
  rw [UInt64.toNat_ofNat_of_lt' h] at hcast
  have hn : ((n : Int) : ℚ) * 2 ^ (0 : Int) = n := by rw [zpow_zero, mul_one, Int.cast_natCast]
  have hrounds : Rounds (ofNat Format.binary64 n) (((n : Int) : ℚ) * 2 ^ (0 : Int)) :=
    rounds_normalize n 0 .positive
  rw [hn] at hrounds
  refine hrounds.nearest hcast (.inl ?_)
  rw [Nat.abs_cast]
  exact natCast_le_largest h

end Gazetteer.Binary64
