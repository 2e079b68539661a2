import Gazetteer.Proofs.Binary64.Monotone
import Gazetteer.Proofs.Search.Growth

/-! Scaled viewports in binary64, in the order of their factors. Every operation on the way keeps
the order of its operands, up to equal results; so of two finite viewports around the same centre
the one with the larger factor contains the other, whatever rounding does to them. -/
namespace Gazetteer
open Binary64

/-- The second reach is on the side of the first, and no shorter. -/
def Farther (r s : ℚ) : Prop := 0 ≤ r ∧ r ≤ s ∨ s ≤ r ∧ r ≤ 0

private theorem Farther.mul {f g : ℚ} (w : ℚ) (hf : 0 ≤ f) (hfg : f ≤ g) :
    Farther (w * f) (w * g) := by
  rcases le_total 0 w with hw | hw
  · exact .inl ⟨mul_nonneg hw hf, mul_le_mul_of_nonneg_left hfg hw⟩
  · exact .inr ⟨mul_le_mul_of_nonpos_left hfg hw, mul_nonpos_of_nonpos_of_nonneg hw hf⟩

private theorem is_order {s t : Binary64} {p q : ℚ} (hs : s.Is p) (ht : t.Is q) :
    (if s < t then (s, t) else (t, s)).1.Is (min p q) ∧
      (if s < t then (s, t) else (t, s)).2.Is (max p q) := by
  split
  · next hlt =>
    have hlt := ((hs.lt_iff ht).mp hlt).le
    rw [min_eq_left hlt, max_eq_right hlt]
    exact ⟨hs, ht⟩
  · next hnot =>
    rw [hs.lt_iff ht, not_lt] at hnot
    rw [min_eq_right hnot, max_eq_left hnot]
    exact ⟨ht, hs⟩

variable {a b c h k x y : Binary64} {p r s u f g : ℚ}

private theorem farther_reach (hw : (b - a).Is u) (hx : x.Is f) (hy : y.Is g) (hf : 0 ≤ f)
    (hfg : f ≤ g) (hx' : ((b - a) * x).isFinite = true) (hy' : ((b - a) * y).isFinite = true) :
    ∃ r s, ((b - a) * x / (2 : Nat)).Is r ∧ ((b - a) * y / (2 : Nat)).Is s ∧ Farther r s := by
  obtain ⟨i, hi, hround⟩ := nearest_mul_of_isFinite hw hx hx'
  obtain ⟨j, hj⟩ := isFinite_iff.mp hy'
  obtain ⟨r, hr, hhalf⟩ := nearest_half hi
  obtain ⟨s, hs, -⟩ := nearest_half hj
  refine ⟨r, s, hr, hs, ?_⟩
  rcases Farther.mul u hf hfg with ⟨hpos, hle⟩ | ⟨hle, hneg⟩
  · have hij : i ≤ j := (hi.le_iff hj).mp (mul_mono hw hx hy hle hx' hy')
    have hi0 : 0 ≤ i := hround.ge representable_zero hpos
    exact .inl ⟨hhalf.ge representable_zero (by linarith), (hr.le_iff hs).mp (half_mono hi hj hij)⟩
  · have hji : j ≤ i := (hj.le_iff hi).mp (mul_mono hw hy hx hle hy' hx')
    have hi0 : i ≤ 0 := hround.le representable_zero hneg
    exact .inr ⟨(hs.le_iff hr).mp (half_mono hj hi hji), hhalf.le representable_zero (by linarith)⟩

private theorem sub_le_add (hc : c.Is p) (hh : h.Is r) (hr : 0 ≤ r) (hsub : (c - h).isFinite = true)
    (hadd : (c + h).isFinite = true) : c - h ≤ c + h := by
  refine le_of_nearest (nearest_sub_of_isFinite hc hh hsub) (nearest_add_of_isFinite hc hh hadd)
    (by linarith) fun heq => .inl ?_
  obtain rfl : r = 0 := by linarith
  rw [sub_zero]
  exact hc.representable

private theorem add_le_sub (hc : c.Is p) (hh : h.Is r) (hr : r ≤ 0) (hsub : (c - h).isFinite = true)
    (hadd : (c + h).isFinite = true) : c + h ≤ c - h := by
  refine le_of_nearest (nearest_add_of_isFinite hc hh hadd) (nearest_sub_of_isFinite hc hh hsub)
    (by linarith) fun heq => .inl ?_
  obtain rfl : r = 0 := by linarith
  rw [add_zero]
  exact hc.representable

private theorem exists_parts_of_isFinite (h : (scaledAxis a b x).1.isFinite = true)
    (h' : (scaledAxis a b x).2.isFinite = true) :
    (∃ p, ((b + a) / (2 : Nat)).Is p) ∧ (∃ u, (b - a).Is u) ∧ ((b - a) * x).isFinite = true ∧
      ((b + a) / (2 : Nat) - (b - a) * x / (2 : Nat)).isFinite = true ∧
      ((b + a) / (2 : Nat) + (b - a) * x / (2 : Nat)).isFinite = true := by
  have hends : ((b + a) / (2 : Nat) - (b - a) * x / (2 : Nat)).isFinite = true ∧
      ((b + a) / (2 : Nat) + (b - a) * x / (2 : Nat)).isFinite = true := by
    simp only [scaledAxis] at h h'
    split at h
    · next hlt => exact ⟨h, by rwa [if_pos hlt] at h'⟩
    · next hnot => exact ⟨by rwa [if_neg hnot] at h', h⟩
  obtain ⟨hcenter, hreach⟩ := isFinite_of_isFinite_add hends.2
  have hproduct := isFinite_of_isFinite_div hreach
  exact ⟨isFinite_iff.mp hcenter, isFinite_iff.mp (isFinite_of_isFinite_mul hproduct).1, hproduct,
    hends⟩

/-- A larger factor leaves no end of a scaled axis further inside, rounded as it is. -/
theorem scaledAxis_widens (hx : x.Is f) (hy : y.Is g) (hf : 0 ≤ f) (hfg : f ≤ g)
    (hlo : (scaledAxis a b x).1.isFinite = true) (hhi : (scaledAxis a b x).2.isFinite = true)
    (hlo' : (scaledAxis a b y).1.isFinite = true) (hhi' : (scaledAxis a b y).2.isFinite = true) :
    (scaledAxis a b y).1 ≤ (scaledAxis a b x).1 ∧ (scaledAxis a b x).2 ≤ (scaledAxis a b y).2 := by
  obtain ⟨⟨p, hc⟩, ⟨u, hw⟩, hproduct, hsub, hadd⟩ := exists_parts_of_isFinite hlo hhi
  obtain ⟨-, -, hproduct', hsub', hadd'⟩ := exists_parts_of_isFinite hlo' hhi'
  obtain ⟨r, s, hr, hs, hfarther⟩ := farther_reach hw hx hy hf hfg hproduct hproduct'
  obtain ⟨l, hl⟩ := isFinite_iff.mp hsub
  obtain ⟨m, hm⟩ := isFinite_iff.mp hadd
  obtain ⟨l', hl'⟩ := isFinite_iff.mp hsub'
  obtain ⟨m', hm'⟩ := isFinite_iff.mp hadd'
  obtain ⟨hlow, hhigh⟩ := is_order hl hm
  obtain ⟨hlow', hhigh'⟩ := is_order hl' hm'
  suffices min l' m' ≤ min l m ∧ max l m ≤ max l' m' from
    ⟨(hlow'.le_iff hlow).mpr this.1, (hhigh.le_iff hhigh').mpr this.2⟩
  rcases hfarther with ⟨hpos, hle⟩ | ⟨hle, hneg⟩
  · have hout := (hl'.le_iff hl).mp (sub_anti hc hr hs hle hsub hsub')
    have hmid := (hl.le_iff hm).mp (sub_le_add hc hr hpos hsub hadd)
    have hout' := (hm.le_iff hm').mp (add_mono hc hr hs hle hadd hadd')
    exact ⟨min_le_of_left_le (le_min hout (hout.trans hmid)),
      le_max_of_le_right (max_le (hmid.trans hout') hout')⟩
  · have hout := (hm'.le_iff hm).mp (add_mono hc hs hr hle hadd' hadd)
    have hmid := (hm.le_iff hl).mp (add_le_sub hc hr hneg hsub hadd)
    have hout' := (hl.le_iff hl').mp (sub_anti hc hs hr hle hsub' hsub)
    exact ⟨min_le_of_right_le (le_min (hout.trans hmid) hout),
      le_max_of_le_left (max_le hout' (hmid.trans hout'))⟩

/-- A viewport scaled by a larger factor contains the one scaled by a smaller factor, as long as
both are finite. -/
theorem Rect.contains_scaled_of_le {v : Rect Binary64} (hx : x.Is f) (hy : y.Is g) (hf : 0 ≤ f)
    (hfg : f ≤ g) (hfinite : (v.scaled x).isFinite = true) (hfinite' : (v.scaled y).isFinite = true) :
    (v.scaled y).contains (v.scaled x) = true := by
  simp only [scaled_eq, isFinite, Bool.and_eq_true] at hfinite hfinite'
  obtain ⟨⟨⟨hlox, hloy⟩, hhix⟩, hhiy⟩ := hfinite
  obtain ⟨⟨⟨hlox', hloy'⟩, hhix'⟩, hhiy'⟩ := hfinite'
  obtain ⟨hwidth, hwidth'⟩ := scaledAxis_widens hx hy hf hfg hlox hhix hlox' hhix'
  obtain ⟨hheight, hheight'⟩ := scaledAxis_widens hx hy hf hfg hloy hhiy hloy' hhiy'
  rw [scaled_eq, scaled_eq, contains_iff]
  exact ⟨hwidth, hwidth', hheight, hheight'⟩

/-- Factors that are the same number but for their bits scale alike. -/
theorem Rect.scaled_congr (v : Rect Binary64) (h : x.toFloat = y.toFloat) :
    v.scaled x = v.scaled y := by
  have hmul (z : Binary64) : z * x = z * y := congrArg (fun f => ofFloat (z.toFloat * f)) h
  rw [scaled_eq, scaled_eq]
  simp only [scaledAxis, hmul]

end Gazetteer
