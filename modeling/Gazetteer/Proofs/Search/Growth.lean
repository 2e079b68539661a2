import Gazetteer.Proofs.Geometry.Bounding
import Gazetteer.Search.Expansion

/-! Growing viewports in binary64. Along each axis a viewport reaches from its centre to both sides
by half its width times the factor, and everything on the way is rounded. As long as the axis is at
least five spaces between numbers wide, each step takes it further on the side towards zero, where
rounding is finest, until it spans the world. -/
namespace Gazetteer
open Binary64

namespace Binary64.Rounded
variable {v r c h : ℚ} {k : Int}

private theorem error_le_reach (hr : Rounded (c - h) r) (hc : 0 ≤ c) (hck : c ≤ 2 ^ k)
    (hk : -1021 ≤ k) (hk' : k ≤ 1023) (hh : 0 ≤ h) (hmax : h < 2 ^ (1023 : Int)) :
    |r - (c - h)| ≤ 2 ^ (k - 54) + h * 2 ^ (-53 : Int) := by
  -- Towards zero, rounding is as fine as the centre asks for, or relative to the reach.
  have hspace : (0 : ℚ) < 2 ^ (k - 54) := by positivity
  have hrelative : 0 ≤ h * 2 ^ (-53 : Int) := by positivity
  rcases le_or_gt |c - h| (2 ^ k) with hnear | hfar
  · linarith [hr.error_le hk hk' hnear]
  · have habs : |c - h| = h - c := by
      rcases abs_cases (c - h) with ⟨he, -⟩ | ⟨he, -⟩ <;> linarith
    have hsmall : (2 : ℚ) ^ (-1022 : Int) ≤ |c - h| :=
      (zpow_le_zpow_right₀ (by norm_num) (by omega)).trans hfar.le
    have herror := hr.error_le_mul hsmall (by linarith)
    have : |c - h| * 2 ^ (-53 : Int) ≤ h * 2 ^ (-53 : Int) :=
      mul_le_mul_of_nonneg_right (by linarith) (by positivity)
    linarith

end Binary64.Rounded

private theorem extends_of_gap {c h h' lo lo' hi hi' : ℚ} {k : Int} (hc : |c| ≤ 2 ^ k)
    (hk : -1021 ≤ k) (hk' : k ≤ 1023) (hh : 0 ≤ h) (hh' : 0 ≤ h') (hmax : h < 2 ^ (1023 : Int))
    (hmax' : h' < 2 ^ (1023 : Int)) (hlo : Rounded (c - h) lo) (hlo' : Rounded (c - h') lo')
    (hhi : Rounded (c + h) hi) (hhi' : Rounded (c + h') hi')
    (hgap : 2 * 2 ^ (k - 54) + (h + h') * 2 ^ (-53 : Int) < h' - h) : lo' < lo ∨ hi < hi' := by
  -- Only on the side towards zero is the error as small as the centre asks for.
  rcases le_total 0 c with hpos | hneg
  · left
    rw [abs_of_nonneg hpos] at hc
    have herror := abs_le.mp (hlo.error_le_reach hpos hc hk hk' hh hmax)
    have herror' := abs_le.mp (hlo'.error_le_reach hpos hc hk hk' hh' hmax')
    linarith
  · right
    rw [abs_of_nonpos hneg] at hc
    have hpos : 0 ≤ -c := neg_nonneg.mpr hneg
    have hflip {z r : ℚ} (hr : Rounded (c + z) r) : Rounded (-c - z) (-r) := by
      rw [← neg_add']
      exact hr.neg
    have herror := abs_le.mp ((hflip hhi).error_le_reach hpos hc hk hk' hh hmax)
    have herror' := abs_le.mp ((hflip hhi').error_le_reach hpos hc hk hk' hh' hmax')
    linarith

private theorem lt_two_pow_of_le {z w : ℚ} (hw : w ≤ 2 ^ (1022 : Int)) (hz : z ≤ w * 1.5) :
    z < 2 ^ (1023 : Int) := by
  have htop : (0 : ℚ) < 2 ^ (1022 : Int) := by positivity
  calc z ≤ w * 1.5 := hz
    _ ≤ 2 ^ (1022 : Int) * 1.5 := mul_le_mul_of_nonneg_right hw (by norm_num)
    _ < 2 ^ (1022 : Int) * 2 := mul_lt_mul_of_pos_left (by norm_num) htop
    _ = 2 ^ (1023 : Int) := (zpow_add_one₀ (by norm_num) _).symm

/-- An interval that can grow until it spans the world: no end is beyond `2 ^ k`, where numbers are
`2 ^ (k - 53)` apart, the interval is five times as wide as that, and by a certain factor it grows
well beyond the world, but not near to the largest numbers. -/
structure Roomy (factor : ℚ) (k : Int) (p q : ℚ) : Prop where
  smallest : -1021 ≤ k
  low : |p| ≤ 2 ^ k
  high : |q| ≤ 2 ^ k
  wide : 5 * 2 ^ (k - 53) ≤ q - p
  reaches : 3 * (2 ^ k + 180) ≤ (q - p) * factor
  bounded : (q - p) * factor ≤ 2 ^ (1022 : Int)

namespace Roomy
variable {factor p q f : ℚ} {k : Int}

private theorem le_largest (h : Roomy factor k p q) : k ≤ 1020 := by
  have hlt : (2 : ℚ) ^ k < 2 ^ (1021 : Int) := by
    have hreach := h.reaches.trans h.bounded
    rw [show (1022 : Int) = 1021 + 1 from rfl, zpow_add_one₀ (by norm_num)] at hreach
    generalize (2 : ℚ) ^ (1021 : Int) = half at hreach ⊢
    linarith [show (0 : ℚ) < 2 ^ k by positivity]
  have := (zpow_lt_zpow_iff_right₀ (one_lt_two : (1 : ℚ) < 2)).mp hlt
  omega

private theorem width_pos (h : Roomy factor k p q) : 0 < q - p :=
  h.wide.trans_lt' (by positivity)

private theorem width_mul_le (h : Roomy factor k p q) (hf : f ≤ factor) :
    (q - p) * f ≤ 2 ^ (1022 : Int) :=
  (mul_le_mul_of_nonneg_left hf h.width_pos.le).trans h.bounded

private theorem width_ge (h : Roomy factor k p q) (hfactor : factor ≤ 2 ^ (1022 : Int)) :
    (2 : ℚ) ^ (-1014 : Int) ≤ q - p := by
  have hlow : (540 : ℚ) ≤ (q - p) * 2 ^ (1022 : Int) := by
    have hk : (0 : ℚ) < 2 ^ k := by positivity
    have := h.reaches.trans (mul_le_mul_of_nonneg_left hfactor h.width_pos.le)
    linarith
  have hpow : (2 : ℚ) ^ (-1014 : Int) * 2 ^ (1022 : Int) = 256 := by
    rw [← zpow_add₀ (by norm_num)]
    norm_num
  exact le_of_mul_le_mul_right (by linarith) (by positivity : (0 : ℚ) < 2 ^ (1022 : Int))

private theorem two_pow_double (h : Roomy factor k p q) : |q + p| ≤ 2 ^ (k + 1) := by
  rw [zpow_add_one₀ (by norm_num)]
  linarith [abs_add_le q p, h.low, h.high]

end Roomy

section
variable {factor p q f : ℚ} {k : Int} {a b x : Binary64}

private theorem abs_half (z : ℚ) : |z / 2| = |z| / 2 := by
  rw [abs_div, abs_of_pos (by norm_num : (0 : ℚ) < 2)]

private theorem exists_center (ha : a.Is p) (hb : b.Is q) (h : Roomy factor k p q) :
    ∃ c, ((b + a) / (2 : Nat)).Is c ∧ |c| ≤ 2 ^ k := by
  have hk := h.smallest
  have hk' := h.le_largest
  obtain ⟨s, hs, hround⟩ := nearest_add hb ha (h.two_pow_double.trans (two_pow_le_largest (by omega)))
  have hs' : |s| ≤ 2 ^ (k + 1) :=
    hround.abs_le_of_abs_le (representable_two_pow (by omega) (by omega)) h.two_pow_double
  have hhalf : |s / 2| ≤ 2 ^ k := by
    rw [abs_half, div_le_iff₀ (by norm_num), ← zpow_add_one₀ (by norm_num)]
    exact hs'
  obtain ⟨c, hc, hround'⟩ := nearest_div hs is_two (by norm_num)
    (hhalf.trans (two_pow_le_largest (by omega)))
  exact ⟨c, hc, hround'.abs_le_of_abs_le (representable_two_pow (by omega) (by omega)) hhalf⟩

private theorem near_of_rounded {v r : ℚ} (hr : Rounded v r) (hlow : (2 : ℚ) ^ (-1022 : Int) ≤ v)
    (hhigh : v < 2 ^ (1023 : Int)) : v * 0.99999 ≤ r ∧ r ≤ v * 1.00001 := by
  have hpos : 0 ≤ v := hlow.trans' (by positivity)
  have htiny : (2 : ℚ) ^ (-53 : Int) ≤ 0.00001 := by norm_num
  obtain ⟨hge, hle⟩ := hr.within hlow hhigh
  exact ⟨(mul_le_mul_of_nonneg_left (by linarith) hpos).trans hge,
    hle.trans (mul_le_mul_of_nonneg_left (by linarith) hpos)⟩

private theorem exists_reach (ha : a.Is p) (hb : b.Is q) (h : Roomy factor k p q) (hx : x.Is f)
    (hf : 1 ≤ f) (hf' : f ≤ factor) (hfactor : factor ≤ 2 ^ (1022 : Int)) :
    ∃ r, ((b - a) * x / (2 : Nat)).Is r ∧ (q - p) * f / 2 * 0.9999 ≤ r ∧
      r ≤ (q - p) * f / 2 * 1.0001 := by
  have hw := h.width_pos
  have hwf : q - p ≤ (q - p) * f := le_mul_of_one_le_right hw.le hf
  have hhigh : (q - p) * f * 1.1 < 2 ^ (1023 : Int) :=
    lt_two_pow_of_le (h.width_mul_le hf') (by linarith)
  have hlow : (2 : ℚ) ^ (-1022 : Int) ≤ (q - p) * 0.01 := by
    have := h.width_ge hfactor
    rw [show (-1014 : Int) = -1022 + 8 from rfl, zpow_add₀ (by norm_num)] at this
    generalize (2 : ℚ) ^ (-1022 : Int) = least at this ⊢
    norm_num at this
    linarith
  -- Nothing on the way is among the smallest or the largest numbers.
  have hleast {z : ℚ} (hz : (q - p) * 0.01 ≤ z) : (2 : ℚ) ^ (-1022 : Int) ≤ z := hlow.trans hz
  have hmost {z : ℚ} (hz : z ≤ (q - p) * f * 1.1) : z < 2 ^ (1023 : Int) := hz.trans_lt hhigh
  have hfinite {z : ℚ} (hz : 0 ≤ z) (hz' : z ≤ (q - p) * f * 1.1) : |z| ≤ largest :=
    (abs_of_nonneg hz).trans_le ((hmost hz').le.trans (two_pow_le_largest (le_refl _)))
  obtain ⟨W, hW, hroundW⟩ := nearest_sub hb ha (hfinite hw.le (by linarith))
  obtain ⟨hWlow, hWhigh⟩ := near_of_rounded hroundW (hleast (by linarith)) (hmost (by linarith))
  have hPlow : (q - p) * f * 0.99999 ≤ W * f := by
    linarith [mul_le_mul_of_nonneg_right hWlow (by linarith : 0 ≤ f)]
  have hPhigh : W * f ≤ (q - p) * f * 1.00001 := by
    linarith [mul_le_mul_of_nonneg_right hWhigh (by linarith : 0 ≤ f)]
  obtain ⟨P, hP, hroundP⟩ := nearest_mul hW hx (hfinite (by linarith) (by linarith))
  obtain ⟨hPlow', hPhigh'⟩ := near_of_rounded hroundP (hleast (by linarith)) (hmost (by linarith))
  obtain ⟨r, hr, hround⟩ := nearest_div hP is_two (by norm_num)
    (hfinite (by linarith) (by linarith))
  obtain ⟨hlow', hhigh'⟩ := near_of_rounded hround (hleast (by linarith)) (hmost (by linarith))
  exact ⟨r, hr, by linarith, by linarith⟩

end

/-- An axis that reaches from its centre to both sides, half its exact width up to a small part. -/
structure Grown (k : Int) (half c r lo hi : ℚ) : Prop where
  representable : Representable c
  center : |c| ≤ 2 ^ k
  reach_ge : half * 0.9999 ≤ r
  reach_le : r ≤ half * 1.0001
  low : Rounded (c - r) lo
  high : Rounded (c + r) hi

namespace Grown
variable {k : Int} {half half' c r r' lo lo' hi hi' : ℚ}

private theorem low_le_high (h : Grown k half c r lo hi) (hhalf : 0 ≤ half) : lo ≤ hi := by
  have hr := h.reach_ge
  exact (h.low.le h.representable (by linarith)).trans (h.high.ge h.representable (by linarith))

private theorem spans (h : Grown k half c r lo hi) (hhalf : 1.005 * (2 ^ k + 180) ≤ half) :
    lo ≤ -180 ∧ 180 ≤ hi := by
  have hc := abs_le.mp h.center
  have hr := h.reach_ge
  have hside : Representable 180 := (Is.natCast (n := 180) (by decide)).representable
  have hpos : (0 : ℚ) < 2 ^ k := by positivity
  exact ⟨h.low.le hside.neg (by linarith), h.high.ge hside (by linarith)⟩

private theorem extends_of_grown (h : Grown k half c r lo hi) (h' : Grown k half' c r' lo' hi')
    (hk : -1021 ≤ k) (hk' : k ≤ 1023) (hwide : 5 * 2 ^ (k - 54) ≤ half) (hge : half * 1.414 ≤ half')
    (hmax : half' * 1.0001 < 2 ^ (1023 : Int)) : lo' < lo ∨ hi < hi' := by
  have hspace : (0 : ℚ) < 2 ^ (k - 54) := by positivity
  have hr := h.reach_ge
  have hr' := h.reach_le
  have hs := h'.reach_ge
  have hs' := h'.reach_le
  refine extends_of_gap h.center hk hk' (by linarith) (by linarith)
    (hmax.trans_le' (by linarith)) (hmax.trans_le' (by linarith)) h.low h'.low h.high h'.high ?_
  have htiny : (r + r') * 2 ^ (-53 : Int) ≤ (r + r') * 0.0001 :=
    mul_le_mul_of_nonneg_left (by norm_num) (by linarith)
  generalize (r + r') * 2 ^ (-53 : Int) = error at htiny ⊢
  linarith

end Grown

section
variable {factor p q f : ℚ} {k : Int} {a b x : Binary64}

private theorem exists_grown (ha : a.Is p) (hb : b.Is q) (h : Roomy factor k p q) (hx : x.Is f)
    (hf : 1 ≤ f) (hf' : f ≤ factor) (hfactor : factor ≤ 2 ^ (1022 : Int)) :
    ∃ c r lo hi, Grown k ((q - p) * f / 2) c r lo hi ∧ ((b + a) / (2 : Nat)).Is c ∧
      ((b + a) / (2 : Nat) - (b - a) * x / (2 : Nat)).Is lo ∧
      ((b + a) / (2 : Nat) + (b - a) * x / (2 : Nat)).Is hi := by
  obtain ⟨c, hc, hcenter⟩ := exists_center ha hb h
  obtain ⟨r, hr, hge, hle⟩ := exists_reach ha hb h hx hf hf' hfactor
  have hw := h.width_pos
  have hbound : |c| + |r| ≤ largest := by
    have hreach := h.reaches
    have hwf := mul_le_mul_of_nonneg_left hf' hw.le
    have hrpos : 0 ≤ r := hge.trans' (by positivity)
    apply LE.le.trans _ (two_pow_le_largest (le_refl 1023))
    rw [abs_of_nonneg hrpos]
    exact (lt_two_pow_of_le h.bounded (by linarith)).le
  obtain ⟨lo, hlo, hroundLow⟩ := nearest_sub hc hr ((abs_sub c r).trans hbound)
  obtain ⟨hi, hhi, hroundHigh⟩ := nearest_add hc hr ((abs_add_le c r).trans hbound)
  exact ⟨c, r, lo, hi, ⟨hc.representable, hcenter, hge, hle, hroundLow, hroundHigh⟩, hc, hlo, hhi⟩

def scaledAxis (a b x : Binary64) : Binary64 × Binary64 :=
  let c := (b + a) / (2 : Nat)
  let r := (b - a) * x / (2 : Nat)
  if c - r < c + r then (c - r, c + r) else (c + r, c - r)

theorem scaled_eq (v : Rect Binary64) (x : Binary64) :
    v.scaled x =
      ⟨⟨(scaledAxis v.lo.x v.hi.x x).1, (scaledAxis v.lo.y v.hi.y x).1⟩,
        ⟨(scaledAxis v.lo.x v.hi.x x).2, (scaledAxis v.lo.y v.hi.y x).2⟩⟩ := rfl

/-- The ends of a roomy interval stand for the ends of one. -/
def RoomyAxis (factor : ℚ) (a b : Binary64) : Prop :=
  ∃ k p q, a.Is p ∧ b.Is q ∧ Roomy factor k p q

private theorem is_scaledAxis {c lo hi half r : ℚ} (h : Grown k half c r lo hi) (hhalf : 0 ≤ half)
    (hlo : ((b + a) / (2 : Nat) - (b - a) * x / (2 : Nat)).Is lo)
    (hhi : ((b + a) / (2 : Nat) + (b - a) * x / (2 : Nat)).Is hi) :
    (scaledAxis a b x).1.Is lo ∧ (scaledAxis a b x).2.Is hi := by
  simp only [scaledAxis]
  split
  · exact ⟨hlo, hhi⟩
  · next hnot =>
    rw [hlo.lt_iff hhi, not_lt] at hnot
    cases le_antisymm hnot (h.low_le_high hhalf)
    exact ⟨hhi, hlo⟩

namespace RoomyAxis
variable {y : Binary64} {g : ℚ}

private theorem isFinite (h : RoomyAxis factor a b) (hx : x.Is f) (hf : 1 ≤ f) (hf' : f ≤ factor)
    (hfactor : factor ≤ 2 ^ (1022 : Int)) :
    (scaledAxis a b x).1.isFinite = true ∧ (scaledAxis a b x).2.isFinite = true := by
  obtain ⟨k, p, q, ha, hb, h⟩ := h
  obtain ⟨c, r, lo, hi, hgrown, -, hlo, hhi⟩ := exists_grown ha hb h hx hf hf' hfactor
  have hw := h.width_pos
  obtain ⟨hlo, hhi⟩ := is_scaledAxis hgrown (by positivity) hlo hhi
  exact ⟨isFinite_iff.mpr ⟨lo, hlo⟩, isFinite_iff.mpr ⟨hi, hhi⟩⟩

private theorem spans (h : RoomyAxis factor a b) (hx : x.Is f) (hf : 1 ≤ f) (hf' : f ≤ factor)
    (hfactor : factor ≤ 2 ^ (1022 : Int)) (hlarge : 0.67 * factor ≤ f) :
    (scaledAxis a b x).1 ≤ World.lower ∧ World.upper ≤ (scaledAxis a b x).2 := by
  obtain ⟨k, p, q, ha, hb, h⟩ := h
  obtain ⟨c, r, lo, hi, hgrown, -, hlo, hhi⟩ := exists_grown ha hb h hx hf hf' hfactor
  have hw := h.width_pos
  obtain ⟨hlo, hhi⟩ := is_scaledAxis hgrown (by positivity) hlo hhi
  have hhalf : 1.005 * (2 ^ k + 180) ≤ (q - p) * f / 2 := by
    have := mul_le_mul_of_nonneg_left hlarge hw.le
    linarith [h.reaches]
  obtain ⟨hlow, hhigh⟩ := hgrown.spans hhalf
  exact ⟨(hlo.le_iff Cell.is_lower).mpr hlow, (is_upper.le_iff hhi).mpr hhigh⟩

private theorem extends_of_le (h : RoomyAxis factor a b) (hx : x.Is f) (hy : y.Is g) (hf : 1 ≤ f)
    (hg : f * 1.414 ≤ g) (hg' : g ≤ factor) (hfactor : factor ≤ 2 ^ (1022 : Int)) :
    (scaledAxis a b y).1 < (scaledAxis a b x).1 ∨ (scaledAxis a b x).2 < (scaledAxis a b y).2 := by
  obtain ⟨k, p, q, ha, hb, h⟩ := h
  obtain ⟨c, r, lo, hi, hgrown, hc, hlo, hhi⟩ :=
    exists_grown ha hb h hx hf (by linarith) hfactor
  obtain ⟨c', r', lo', hi', hgrown', hc', hlo', hhi'⟩ :=
    exists_grown ha hb h hy (by linarith) hg' hfactor
  cases hc.unique hc'
  have hw := h.width_pos
  have hg0 : 0 ≤ g := by linarith
  obtain ⟨hlo, hhi⟩ := is_scaledAxis hgrown (by positivity) hlo hhi
  obtain ⟨hlo', hhi'⟩ := is_scaledAxis hgrown' (by positivity) hlo' hhi'
  rw [hlo'.lt_iff hlo, hhi.lt_iff hhi']
  have hk := h.le_largest
  refine hgrown.extends_of_grown hgrown' h.smallest (by omega) ?_ ?_ ?_
  · have hwide := h.wide
    rw [show k - 53 = k - 54 + 1 by ring, zpow_add_one₀ (by norm_num)] at hwide
    linarith [le_mul_of_one_le_right hw.le hf]
  · linarith [mul_le_mul_of_nonneg_left hg hw.le]
  · have := mul_nonneg hw.le hg0
    exact lt_two_pow_of_le (h.width_mul_le hg') (by linarith)

end RoomyAxis

end

/-- The factor between rounds, exactly. -/
theorem is_growth : (growth : Binary64).Is (6369051672525773 / 2 ^ 52) := by
  have hnumerator : ((6369051672525773 : Nat) : Binary64).Is 6369051672525773 := by
    exact_mod_cast Is.natCast (n := 6369051672525773) (by decide)
  have hdenominator : ((leadingBit : Nat) : Binary64).Is (2 ^ 52) := by
    have := Is.natCast (n := leadingBit) (by decide)
    norm_num [leadingBit] at this ⊢
    exact this
  refine hnumerator.div hdenominator (by norm_num) ⟨6369051672525773, -52, ?_, ?_, ?_, ?_⟩
  all_goals norm_num

private theorem exists_next_factor {x : Binary64} {f : ℚ} (hx : x.Is f) (hf : 1 ≤ f)
    (hf' : f ≤ 2 ^ (1022 : Int)) :
    ∃ g, (x * growth).Is g ∧ f * 1.4141 ≤ g ∧ g ≤ f * 1.415 := by
  have hroot : 1.41421 ≤ (6369051672525773 / 2 ^ 52 : ℚ) ∧
      (6369051672525773 / 2 ^ 52 : ℚ) ≤ 1.41422 := by norm_num
  generalize hg : (6369051672525773 / 2 ^ 52 : ℚ) = root at hroot
  have hgrowth := is_growth
  rw [hg] at hgrowth
  have hlow : f * 1.41421 ≤ f * root := mul_le_mul_of_nonneg_left hroot.1 (by linarith)
  have hhigh : f * root ≤ f * 1.41422 := mul_le_mul_of_nonneg_left hroot.2 (by linarith)
  have hleast : (2 : ℚ) ^ (-1022 : Int) ≤ f * root :=
    (zpow_le_one_of_nonpos₀ (by norm_num) (by norm_num)).trans (by linarith)
  have hmost : f * root < 2 ^ (1023 : Int) := lt_two_pow_of_le hf' (by linarith)
  obtain ⟨g, hg, hround⟩ := nearest_mul hx hgrowth
    ((abs_of_nonneg (by linarith)).trans_le (hmost.le.trans (two_pow_le_largest (le_refl _))))
  obtain ⟨hge, hle⟩ := near_of_rounded hround hleast hmost
  exact ⟨g, hg, by linarith, by linarith⟩

/-- A viewport that can grow until it spans the world on both axes, at factors that suit both. -/
def Rect.Roomy (v : Rect Binary64) : Prop :=
  ∃ factor : ℚ, 1 ≤ factor ∧ factor ≤ 2 ^ (1022 : Int) ∧
    RoomyAxis factor v.lo.x v.hi.x ∧ RoomyAxis factor v.lo.y v.hi.y

section
variable {v : Rect Binary64} {factor f g : ℚ} {x y : Binary64}
  (hx : RoomyAxis factor v.lo.x v.hi.x) (hy : RoomyAxis factor v.lo.y v.hi.y)
  (hfactor : factor ≤ 2 ^ (1022 : Int))
include hx hy hfactor

/-- A roomy viewport stays finite up to its factor. -/
theorem isFinite_scaled (hf : x.Is f) (hone : 1 ≤ f) (hle : f ≤ factor) :
    (v.scaled x).isFinite = true := by
  obtain ⟨hlox, hhix⟩ := hx.isFinite hf hone hle hfactor
  obtain ⟨hloy, hhiy⟩ := hy.isFinite hf hone hle hfactor
  simp only [scaled_eq, Rect.isFinite, Bool.and_eq_true]
  exact ⟨⟨⟨hlox, hloy⟩, hhix⟩, hhiy⟩

/-- A viewport that does not contain the world grows. -/
theorem grows_scaled (hf : x.Is f) (hg : y.Is g) (hone : 1 ≤ f) (hfg : f * 1.414 ≤ g)
    (hle : g ≤ factor) (hworld : (v.scaled x).contains World.extent = false) :
    (v.scaled x).grows (v.scaled y) = true := by
  have haxis {a b : Binary64} (h : RoomyAxis factor a b)
      (hspans : ¬ ((scaledAxis a b x).1 ≤ World.lower ∧ World.upper ≤ (scaledAxis a b x).2)) :
      axisGrows (scaledAxis a b x) (scaledAxis a b y) = true := by
    simp only [axisGrows, Bool.and_eq_true, Bool.not_eq_true', Bool.or_eq_true, decide_eq_true_eq,
      Bool.and_eq_false_iff, decide_eq_false_iff_not]
    exact ⟨not_and_or.mp hspans, h.extends_of_le hf hg hone hfg hle hfactor⟩
  rw [scaled_eq, scaled_eq, Rect.grows, Bool.or_eq_true]
  by_contra hneither
  obtain ⟨hspansX, hspansY⟩ := not_or.mp hneither
  have hX := not_not.mp (mt (haxis hx) hspansX)
  have hY := not_not.mp (mt (haxis hy) hspansY)
  have : (v.scaled x).contains World.extent = true := Rect.contains_iff.mpr ⟨hX.1, hX.2, hY.1, hY.2⟩
  rw [hworld] at this
  cases this

/-- A roomy viewport contains the world near to its factor. -/
theorem contains_scaled (hf : x.Is f) (hone : 1 ≤ f) (hle : f ≤ factor) (hlarge : 0.67 * factor ≤ f) :
    (v.scaled x).contains World.extent = true := by
  obtain ⟨hlowX, hhighX⟩ := hx.spans hf hone hle hfactor hlarge
  obtain ⟨hlowY, hhighY⟩ := hy.spans hf hone hle hfactor hlarge
  exact Rect.contains_iff.mpr ⟨hlowX, hhighX, hlowY, hhighY⟩

end

/-- A survey that goes on as long as viewports grow. -/
def idle : Survey Binary64 Unit Empty where
  visit := fun _ _ => ([], ())
  covered := fun _ => false
  found := fun _ => 0

/-- With rounds enough, a roomy viewport comes to contain the world. -/
theorem exists_contains_world {v : Rect Binary64} {factor : ℚ}
    (hx : RoomyAxis factor v.lo.x v.hi.x) (hy : RoomyAxis factor v.lo.y v.hi.y)
    (hfactor : factor ≤ 2 ^ (1022 : Int)) {fuel : Nat} {x : Binary64} {f : ℚ}
    {previous : Option (Rect Binary64)} (hf : x.Is f) (hone : 1 ≤ f) (hle : f ≤ factor)
    (hfuel : factor < f * 1.4141 ^ fuel)
    (hgrows : ∀ w ∈ previous, w.grows (v.scaled x) = true) :
    ∃ w ∈ (expandFrom idle {} v fuel x previous ()).1.map (·.viewport),
      w.contains World.extent = true := by
  induction fuel generalizing x f previous with
  | zero =>
    rw [pow_zero, mul_one] at hfuel
    exact absurd hfuel hle.not_gt
  | succ fuel ih =>
    have hfinite := isFinite_scaled hx hy hfactor hf hone hle
    have hcapped : ({} : Limits Binary64).capped x = x := rfl
    simp only [expandFrom, hcapped, hfinite, Bool.not_true, Bool.false_eq_true, if_false]
    cases hworld : (v.scaled x).contains World.extent with
    | true => split <;> exact ⟨_, List.mem_cons_self, hworld⟩
    | false =>
      have hsmall : f < 0.67 * factor := by
        by_contra hlarge
        rw [contains_scaled hx hy hfactor hf hone hle (not_lt.mp hlarge)] at hworld
        cases hworld
      obtain ⟨g, hg, hge, hle'⟩ := exists_next_factor hf hone (hle.trans hfactor)
      have hnext : g ≤ factor := by linarith
      have hgrows' : (v.scaled x).grows (v.scaled (x * growth)) = true :=
        grows_scaled hx hy hfactor hf hg hone (by linarith) hnext hworld
      have hending : Round.ending? idle {} previous ⟨x, v.scaled x,
          (idle.visit (v.scaled x) ()).1, (idle.visit (v.scaled x) ()).2⟩ = none := by
        cases previous with
        | none => rfl
        | some w => simp [Round.ending?, idle, hgrows w rfl]
      have hfuel' : factor < g * 1.4141 ^ fuel := by
        have := mul_le_mul_of_nonneg_right hge (by positivity : (0 : ℚ) ≤ 1.4141 ^ fuel)
        rw [pow_succ] at hfuel
        linarith
      have hgrows'' : ∀ w ∈ some (v.scaled x), w.grows (v.scaled (x * growth)) = true := by
        rintro w ⟨⟩
        exact hgrows'
      obtain ⟨w, hw, hcontains⟩ := ih hg (by linarith) hnext hfuel' hgrows''
      rw [hending]
      exact ⟨w, List.mem_cons_of_mem _ hw, hcontains⟩

private theorem two_pow_lt_growth : (2 : ℚ) ^ (1022 : Int) < 1 * 1.4141 ^ (roundLimit + 1) := by
  -- Two rounds double the factor, but for a four-thousandth part.
  have hbernoulli : (1 / 4 : ℚ) < (1 - 1 / 4000) ^ 1024 := by
    have := one_add_mul_le_pow (show (-2 : ℚ) ≤ -(1 / 4000) by norm_num) 1024
    rw [← sub_eq_add_neg] at this
    exact this.trans_lt' (by norm_num)
  have htwo : ((2 : ℚ) * (1 - 1 / 4000)) ^ 1024 ≤ (1.4141 ^ 2) ^ 1024 :=
    pow_le_pow_left₀ (by norm_num) (by norm_num) 1024
  have hlast : ((1.4141 : ℚ) ^ 2) ^ 1024 ≤ 1.4141 ^ (roundLimit + 1) := by
    rw [← pow_mul]
    exact pow_le_pow_right₀ (by norm_num) (by decide)
  have hquarter : (2 : ℚ) ^ (1022 : Int) = 2 ^ 1024 * (1 / 4) := by
    rw [show (1022 : Int) = ((1024 : Nat) : Int) + -2 from rfl, zpow_add₀ (by norm_num), zpow_natCast]
    norm_num
  have hpos : (0 : ℚ) < 2 ^ 1024 := by positivity
  calc (2 : ℚ) ^ (1022 : Int) = 2 ^ 1024 * (1 / 4) := hquarter
    _ < 2 ^ 1024 * (1 - 1 / 4000) ^ 1024 := mul_lt_mul_of_pos_left hbernoulli hpos
    _ = (2 * (1 - 1 / 4000)) ^ 1024 := (mul_pow ..).symm
    _ ≤ 1 * 1.4141 ^ (roundLimit + 1) := by rw [one_mul]; exact htwo.trans hlast

/-- The rounds there can be are enough for any roomy viewport. -/
theorem Rect.Roomy.exists_contains_world {v : Rect Binary64} (h : v.Roomy) :
    ∃ w ∈ (expand idle {} v ()).1.map (·.viewport), w.contains World.extent = true := by
  obtain ⟨factor, hone, hfactor, hx, hy⟩ := h
  exact Gazetteer.exists_contains_world hx hy hfactor is_one le_rfl hone
    (hfactor.trans_lt two_pow_lt_growth) nofun

/-- Viewports in the world are roomy unless one of their sides is less than a trillionth of a
unit. -/
theorem Rect.roomy_of_world {v : Rect Binary64} {p q p' q' : ℚ} (hp : v.lo.x.Is p) (hq : v.hi.x.Is q)
    (hp' : v.lo.y.Is p') (hq' : v.hi.y.Is q') (hx : -180 ≤ p ∧ q ≤ 180) (hy : -180 ≤ p' ∧ q' ≤ 180)
    (hwide : 1 / 2 ^ 42 ≤ q - p) (hhigh : 1 / 2 ^ 42 ≤ q' - p') : v.Roomy := by
  have haxis {p q : ℚ} (h : -180 ≤ p ∧ q ≤ 180) (hwide : 1 / 2 ^ 42 ≤ q - p) :
      Gazetteer.Roomy (2 ^ 53) 8 p q := by
    have hpos : (0 : ℚ) < 1 / 2 ^ 42 := by norm_num
    refine ⟨by norm_num, ?_, ?_, ?_, ?_, ?_⟩
    · rw [abs_le]
      norm_num
      constructor <;> linarith
    · rw [abs_le]
      norm_num
      constructor <;> linarith
    · norm_num at hwide ⊢
      linarith
    · norm_num at hwide ⊢
      linarith
    · calc (q - p) * 2 ^ 53 ≤ 360 * 2 ^ 53 := mul_le_mul_of_nonneg_right (by linarith) (by norm_num)
        _ ≤ 2 ^ (62 : Int) := by norm_num
        _ ≤ 2 ^ (1022 : Int) := zpow_le_zpow_right₀ (by norm_num) (by norm_num)
  refine ⟨2 ^ 53, by norm_num, ?_, ⟨8, p, q, hp, hq, haxis hx hwide⟩,
    ⟨8, p', q', hp', hq', haxis hy hhigh⟩⟩
  calc (2 : ℚ) ^ 53 ≤ 2 ^ (53 : Int) := by norm_num
    _ ≤ 2 ^ (1022 : Int) := zpow_le_zpow_right₀ (by norm_num) (by norm_num)

end Gazetteer
