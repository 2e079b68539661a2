import Gazetteer.Proofs.Binary64.Finiteness
import Gazetteer.Proofs.Binary64.Exact

/-! Numbers of every kind against rational thresholds. Infinity reaches all thresholds, and
not-a-number reaches none. The integer part of a number is told by the thresholds that it reaches,
and a product with a power of two reaches those that the number reaches, times this power. -/
namespace Gazetteer.Binary64
open Float.Model (UnpackedFloat)
open Float.Model.UnpackedFloat (Sign decreaseExponent roundToInt toInt shiftToExponent)

/-- The number is the rational number or above it. -/
def AtLeast (x : Binary64) (t : ℚ) : Prop :=
  ∃ p ∈ x.place, ((t : WithTop ℚ) : WithBot (WithTop ℚ)) ≤ p

section
variable {x y : Binary64} {p q t : ℚ} {s : Sign}

theorem Is.atLeast_iff (h : x.Is p) : x.AtLeast t ↔ t ≤ p := by
  rw [AtLeast, h]
  simp

private theorem atLeast_of_infinite (h : x.unpacked = .infinity .positive) : x.AtLeast t :=
  ⟨⊤, by rw [place, h]; rfl, WithBot.coe_le_coe.mpr le_top⟩

private theorem not_atLeast_of_infinite (h : x.unpacked = .infinity .negative) : ¬ x.AtLeast t := by
  rw [AtLeast, place, h]
  simp [placeOf]

private theorem not_atLeast_of_nan (h : x.unpacked = .notANumber) : ¬ x.AtLeast t := by
  rw [AtLeast, place, h]
  simp [placeOf]

private theorem kinds (x : Binary64) :
    (∃ p, x.Is p) ∨ (∃ s, x.unpacked = .infinity s) ∨ x.unpacked = .notANumber := by
  rw [← isFinite_iff, isFinite_eq_unpacked]
  cases x.unpacked with
  | notANumber => exact .inr (.inr rfl)
  | infinity s => exact .inr (.inl ⟨s, rfl⟩)
  | zero | finite => exact .inl rfl

/-- The integer part is exact within its bounds. -/
theorem Is.truncate_eq (h : x.Is p) : x.truncate = min ⌊p⌋₊ (2 ^ 32 - 1) := by
  rw [truncate_eq_unpacked]
  rcases h.parts with ⟨s, hs, rfl⟩ | ⟨s, m, e, hm, hs, -, rfl⟩ <;> rw [hs]
  · rw [Nat.floor_zero]
    rfl
  · have hshifted : Tells (.ofMantissaAndAccuracy (m <<< e.toNat) .exact)
        (m * 2 ^ e / 2 ^ (e - e.toNat)) := by
      rw [← shiftLeft_mul_zpow m e e.toNat, mul_div_cancel_right₀ _ (by positivity)]
      exact tells_exact _
    obtain ⟨y, hy, htells⟩ := shiftToExponent_spec hshifted (show e - e.toNat ≤ 0 by omega)
    rw [zpow_zero, div_one] at htells
    have hfloor : ⌊(m : ℚ) * 2 ^ e⌋₊ = y.mantissa :=
      (Nat.floor_eq_iff (by positivity)).mpr ⟨htells.mantissa_le, htells.lt_mantissa⟩
    have hround : roundToInt s m e = s.apply y.mantissa := by
      simp only [roundToInt, decreaseExponent, sub_zero, hy]
    rw [UnpackedFloat.toUInt32, toInt, hround]
    cases s with
    | negative =>
      have hneg : -((m : ℚ) * 2 ^ e) ≤ 0 := neg_nonpos.mpr (by positivity)
      rw [ofParts_negative, Nat.floor_of_nonpos hneg, Sign.apply, Int.toNat_neg_natCast]
      rfl
    | positive =>
      rw [ofParts_positive, hfloor, Sign.apply, Int.toNat_natCast, UInt32.ofNatClamp]
      split
      · next hlt =>
        have hlt : y.mantissa < 2 ^ 32 := hlt
        rw [UInt32.toNat_ofNatLT]
        omega
      · next hge =>
        have hge : ¬ y.mantissa < 2 ^ 32 := hge
        rw [UInt32.toNat_ofNatLT, UInt32.size]
        omega

/-- The integer part of a number reaches the integers that the number reaches. -/
theorem le_truncate_iff {n : Nat} (hpos : 0 < n) (hn : n < 2 ^ 32) :
    n ≤ x.truncate ↔ x.AtLeast n := by
  rcases x.kinds with ⟨p, hp⟩ | ⟨s, hs⟩ | hnan
  · have hmin : n ≤ min ⌊p⌋₊ (2 ^ 32 - 1) ↔ n ≤ ⌊p⌋₊ := by omega
    rw [hp.truncate_eq, hp.atLeast_iff, hmin, Nat.le_floor_iff' hpos.ne']
  · rw [truncate_eq_unpacked, hs]
    cases s with
    | positive =>
      refine iff_of_true ?_ (atLeast_of_infinite hs)
      change n ≤ 2 ^ 32 - 1
      omega
    | negative => exact iff_of_false (Nat.not_le_of_gt hpos) (not_atLeast_of_infinite hs)
  · rw [truncate_eq_unpacked, hnan]
    exact iff_of_false (Nat.not_le_of_gt hpos) (not_atLeast_of_nan hnan)

private theorem unpacked_mul_of_infinite (hx : x.unpacked = .infinity s) (hy : y.Is q)
    (hq : 0 < q) : (x * y).unpacked = .infinity s := by
  rw [unpacked_mul, hx]
  rcases hy.parts with ⟨s', -, rfl⟩ | ⟨s', m, e, hm, hs', -, rfl⟩
  · exact absurd hq (lt_irrefl 0)
  · rw [hs']
    cases s' with
    | positive =>
      have hmul : UnpackedFloat.mul .binary64 (.infinity s) (.finite .positive m e hm) =
          .infinity s := by
        cases s <;> rfl
      rw [hmul]
      exact unpack_pack trivial
    | negative =>
      rw [ofParts_negative] at hq
      have : (0 : ℚ) < m * 2 ^ e := by positivity
      linarith

private theorem unpacked_mul_of_nan (hx : x.unpacked = .notANumber) (y : Binary64) :
    (x * y).unpacked = .notANumber := by
  have hmul : UnpackedFloat.mul .binary64 .notANumber y.unpacked = .notANumber := by
    cases y.unpacked <;> rfl
  rw [unpacked_mul, hx, hmul]
  exact unpack_pack trivial

/-- A product with a power of two is exact, or it overflows. -/
theorem Is.mul_two_pow_cases {k : Nat} (hx : x.Is p) (hy : y.Is (2 ^ k)) :
    (x * y).Is (p * 2 ^ k) ∨ ∃ s, (x * y).unpacked = .infinity s ∧
      p * 2 ^ k = signed s |p * 2 ^ k| ∧ 2 ^ (1024 : Int) ≤ |p * 2 ^ k| := by
  rcases hx.representable.mul_two_pow_cases k with hrep | hlarge
  · exact .inl (hx.mul hy hrep)
  · obtain ⟨s, hs, hside⟩ := unpacked_mul_of_large hx hy hlarge
    exact .inr ⟨s, hs, hside, hlarge⟩

/-- Multiplying by a power of two moves the thresholds along, overflow or not. -/
theorem atLeast_mul_two_pow_iff {k : Nat} (hy : y.Is (2 ^ k)) (ht : |t| < 2 ^ (1024 : Int)) :
    (x * y).AtLeast t ↔ x.AtLeast (t / 2 ^ k) := by
  have hpow : (0 : ℚ) < 2 ^ k := by positivity
  rcases x.kinds with ⟨p, hp⟩ | ⟨s, hs⟩ | hnan
  · rw [hp.atLeast_iff, div_le_iff₀ hpow]
    rcases hp.mul_two_pow_cases hy with hexact | ⟨s, hs, hside, hlarge⟩
    · exact hexact.atLeast_iff
    · obtain ⟨hlow, hhigh⟩ := abs_lt.mp ht
      cases s with
      | positive =>
        rw [signed] at hside
        exact iff_of_true (atLeast_of_infinite hs) (by linarith)
      | negative =>
        rw [signed] at hside
        exact iff_of_false (not_atLeast_of_infinite hs) (by linarith)
  · have hmul := unpacked_mul_of_infinite hs hy hpow
    cases s with
    | positive => exact iff_of_true (atLeast_of_infinite hmul) (atLeast_of_infinite hs)
    | negative => exact iff_of_false (not_atLeast_of_infinite hmul) (not_atLeast_of_infinite hs)
  · exact iff_of_false (not_atLeast_of_nan (unpacked_mul_of_nan hnan y)) (not_atLeast_of_nan hnan)

end
end Gazetteer.Binary64
