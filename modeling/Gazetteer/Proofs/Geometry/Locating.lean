import Gazetteer.Proofs.Geometry.Bounding
import Gazetteer.Proofs.Geometry.Covering
import Gazetteer.Proofs.Geometry.Nesting

/-! Cells of points. The column of a coordinate is computed from its distance to the lower bound of
the world. Only the rounding of this distance matters: division by the side of the world never takes
it past a border, and the cells of all levels agree. So a point is found through a rectangle that
holds it unless the distance of one of its coordinates is rounded up to a border above it. -/
namespace Gazetteer
open Binary64

private theorem unit_le_sub {M N t : Int} (h : (M : ℚ) * 2 ^ t < N * 2 ^ t) :
    (2 : ℚ) ^ t ≤ N * 2 ^ t - M * 2 ^ t := by
  have hlt : M < N := by exact_mod_cast lt_of_mul_lt_mul_right h (by positivity)
  have hone : (1 : ℚ) ≤ N - M := by exact_mod_cast Int.sub_pos_of_lt hlt
  rw [← sub_mul]
  exact le_mul_of_one_le_left (by positivity) hone

section
variable {K r u : ℚ} {n level : Nat} {f : Int}

private theorem gap (hK : K = n / 2 ^ level) (hlevel : (level : Int) ≤ 44 - f)
    (hr : Representable r) (hlow : 2 ^ (f + 8) ≤ r) (hlt : r < 360 * K) :
    2 ^ (f - 44) ≤ 360 * K - r := by
  -- A number below 360 times a border, but not far below, is a good part of a unit below.
  obtain ⟨M, E, hM, -, -, rfl⟩ := hr
  have hE : f - 44 ≤ E := by
    have hM' : (M : ℚ) < 2 ^ (53 : Int) := by exact_mod_cast (le_abs_self M).trans_lt hM
    have hlt : (2 : ℚ) ^ (f + 8) < 2 ^ (53 + E) := by
      rw [zpow_add₀ (by norm_num) 53]
      exact hlow.trans_lt (mul_lt_mul_of_pos_right hM' (by positivity))
    have := (zpow_lt_zpow_iff_right₀ (one_lt_two : (1 : ℚ) < 2)).mp hlt
    omega
  have hK' : 360 * K = ((360 * n : Int) : ℚ) * 2 ^ (-(level : Int)) := by
    rw [hK, zpow_neg, zpow_natCast]
    push_cast
    ring
  obtain ⟨N, hN⟩ := exists_multiple M hE
  obtain ⟨S, hS⟩ := exists_multiple (360 * n) (show f - 44 ≤ -(level : Int) by omega)
  rw [hK', hS, hN] at hlt ⊢
  exact unit_le_sub hlt

private theorem quotient_lt (hlevel : level ≤ World.finestLevel) (hK : K = n / 2 ^ level)
    (hpos : 0 < K) (hone : K < 1) (hr : Representable r) (hlt : r < 360 * K)
    (hu : Rounded (r / 360) u) : u < K := by
  have hlevel : level ≤ 24 := hlevel
  obtain ⟨f, hle, hlt'⟩ := exists_mem_Ico_zpow hpos (one_lt_two : (1 : ℚ) < 2)
  have hf : f < 0 :=
    (zpow_lt_zpow_iff_right₀ (one_lt_two : (1 : ℚ) < 2)).mp (by simpa using hle.trans_lt hone)
  have hf' : -25 < f := by
    have hn : (1 : ℚ) ≤ n := by
      have : 0 < n := Nat.pos_of_ne_zero fun h => by simp [hK, h] at hpos
      exact_mod_cast this
    have hlow : (2 : ℚ) ^ (-24 : Int) < 2 ^ (f + 1) := by
      calc (2 : ℚ) ^ (-24 : Int) ≤ 2 ^ (-(level : Int)) :=
            zpow_le_zpow_right₀ (by norm_num) (by omega)
        _ = 1 / 2 ^ level := by rw [zpow_neg, zpow_natCast, one_div]
        _ ≤ K := by rw [hK]; gcongr
        _ < 2 ^ (f + 1) := hlt'
    have := (zpow_lt_zpow_iff_right₀ (one_lt_two : (1 : ℚ) < 2)).mp hlow
    omega
  have hg : (0 : ℚ) < 2 ^ (f - 52) := by positivity
  rcases lt_or_ge r (2 ^ (f + 8)) with hfar | hnear
  · -- Three quarters of the power of two below the border lie in between.
    have hw : Representable (3 * 2 ^ (f - 2)) :=
      ⟨3, f - 2, by norm_num, by omega, by omega, by norm_num⟩
    have h8 : (2 : ℚ) ^ (f + 8) = 1024 * 2 ^ (f - 2) := by
      rw [show f + 8 = f - 2 + 10 by ring, zpow_add₀ (by norm_num)]
      norm_num [mul_comm]
    have h2 : (2 : ℚ) ^ f = 4 * 2 ^ (f - 2) := by
      rw [show f = f - 2 + 2 by ring, zpow_add₀ (by norm_num)]
      norm_num [mul_comm]
    have hpow : (0 : ℚ) < 2 ^ (f - 2) := by positivity
    have := hu.le hw (by linarith)
    linarith
  · -- The number before the border is nearer than the border itself.
    have hgap := gap hK (by omega) hr hnear hlt
    have h44 : (2 : ℚ) ^ (f - 44) = 256 * 2 ^ (f - 52) := by
      rw [show f - 44 = f - 52 + 8 by ring, zpow_add₀ (by norm_num)]
      norm_num [mul_comm]
    obtain ⟨N, hN⟩ := exists_multiple n (show f - 52 ≤ -(level : Int) by omega)
    have hK' : K = N * 2 ^ (f - 52) := by
      rw [← hN, hK, zpow_neg, zpow_natCast, Int.cast_natCast, div_eq_mul_inv]
    have hw : Representable (K - 2 ^ (f - 52)) := by
      have hN0 : (0 : ℚ) < N := by
        rw [hK'] at hpos
        exact pos_of_mul_pos_left hpos hg.le
      have hN1 : (N : ℚ) < 2 ^ 53 := by
        rw [hK', show f + 1 = 53 + (f - 52) by ring, zpow_add₀ (by norm_num)] at hlt'
        exact_mod_cast lt_of_mul_lt_mul_right hlt' hg.le
      have hN0 : 0 < N := by exact_mod_cast hN0
      have hN1 : N < 2 ^ 53 := by exact_mod_cast hN1
      refine ⟨N - 1, f - 52, abs_lt.mpr (by omega), by omega, by omega, ?_⟩
      rw [hK']
      push_cast
      ring
    by_contra hge
    have hnearest := hu _ hw
    have hup := le_abs_self (u - r / 360)
    rcases abs_cases (K - 2 ^ (f - 52) - r / 360) with ⟨he, -⟩ | ⟨he, -⟩ <;> linarith

end

namespace Cell

private theorem exists_distance {v : Binary64} {q : ℚ} (hv : v.Is q) (hlow : -180 ≤ q)
    (hhigh : q ≤ 180) : ∃ r, (v - World.lower).Is r ∧ Rounded (q + 180) r ∧ 0 ≤ r ∧ r ≤ 360 := by
  have hle : q + 180 ≤ 360 := by linarith
  have hzero : Representable 0 := (Is.natCast (n := 0) (by decide)).representable
  have hside : Representable 360 := (Is.natCast (n := 360) (by decide)).representable
  obtain ⟨r, hr, hround⟩ := nearest_sub hv is_lower (by
    rw [sub_neg_eq_add, abs_of_nonneg (by linarith)]
    exact hle.trans (natCast_le_largest (n := 360) (by decide)))
  rw [sub_neg_eq_add] at hround
  exact ⟨r, hr, hround, hround.ge hzero (by linarith), hround.le hside hle⟩

/-- A coordinate is in the columns up from a border if its distance, as it is computed, is that of
the border or more. -/
theorem le_index_iff {v : Binary64} {r : ℚ} (hr : (v - World.lower).Is r) (hlow : 0 ≤ r)
    (hhigh : r ≤ 360) {level n : Nat} (hlevel : level ≤ World.finestLevel) (hn : n < 2 ^ level) :
    n ≤ index level v ↔ corner level n + 180 ≤ r := by
  have hworld : (World.side : Binary64).Is 360 := Is.natCast (by decide)
  have hratio : |r / 360| ≤ 1 := by
    rw [abs_of_nonneg (by positivity), div_le_one (by norm_num)]
    exact hhigh
  obtain ⟨u, hu, hround⟩ := nearest_div hr hworld (by norm_num)
    (hratio.trans (by exact_mod_cast natCast_le_largest (show 1 < 2 ^ 64 by decide)))
  have hborder : corner level n + 180 = 360 * (n / 2 ^ level) := by
    rw [corner]
    ring
  rw [le_index_iff_atLeast hlevel, hu.atLeast_iff, hborder]
  rcases Nat.eq_zero_or_pos n with rfl | hpos
  · exact iff_of_true (.inl rfl) (by simpa using hlow)
  rw [or_iff_right hpos.ne', and_iff_right hn]
  constructor
  · intro hle
    by_contra hlt
    have hpos : (0 : ℚ) < n / 2 ^ level := by positivity
    have hone : (n : ℚ) / 2 ^ level < 1 := by
      rw [div_lt_one (by positivity)]
      exact_mod_cast hn
    exact absurd (quotient_lt hlevel rfl hpos hone hr.representable (not_le.mp hlt) hround) hle.not_gt
  · intro hle
    refine hround.ge (representable_div hlevel (M := n) ?_) ?_
    · rw [Nat.abs_cast]
      have := hn.trans_le (le_of_le_pow hlevel (Nat.le_refl _))
      omega
    · rw [le_div_iff₀ (by norm_num)]
      linarith

/-- The coordinate lies below a border between columns, but its distance to the world's lower bound,
as it is computed, is not below that of the border. Rows have the same borders. -/
def Overruns (level : Nat) (v : Binary64) : Prop :=
  ∃ c : Cell, c.level = min level World.finestLevel ∧
    v < (c.rect : Rect Binary64).lo.x ∧
    (c.rect : Rect Binary64).lo.x - World.lower ≤ v - World.lower

private theorem is_distance (c : Cell) :
    ((c.rect : Rect Binary64).lo.x - World.lower).Is (corner c.level c.x + 180) := by
  have hdistance : corner c.level c.x - -180 = ((360 * c.x : Int) : ℚ) / 2 ^ c.level := by
    rw [corner]
    push_cast
    ring
  have hpow := c.x_lt.trans_le (le_of_le_pow c.level_le (Nat.le_refl _))
  have hsub := (rect_exact c).1.sub is_lower (by
    rw [hdistance]
    exact representable_div c.level_le (abs_lt.mpr (by omega)))
  rwa [sub_neg_eq_add] at hsub

section
variable {v : Binary64} {q : ℚ}

private theorem overruns_iff (hv : v.Is q) (hlow : -180 ≤ q) (hhigh : q ≤ 180) (level : Nat) :
    Overruns level v ↔
      q < corner (min level World.finestLevel) (index (min level World.finestLevel) v) := by
  obtain ⟨r, hr, -, hr0, hr360⟩ := exists_distance hv hlow hhigh
  have hlevel := Nat.min_le_right level World.finestLevel
  constructor
  · rintro ⟨c, hc, hbelow, hdistance⟩
    have hx := c.x_lt
    rw [hc] at hx
    rw [hv.lt_iff (rect_exact c).1, hc] at hbelow
    rw [(is_distance c).le_iff hr, hc, ← le_index_iff hr hr0 hr360 hlevel hx] at hdistance
    exact hbelow.trans_le (corner_mono _ hdistance)
  · intro hbelow
    let c : Cell := ofPoint ⟨v, v⟩ level
    refine ⟨c, rfl, (hv.lt_iff (rect_exact c).1).mpr hbelow, ((is_distance c).le_iff hr).mpr ?_⟩
    exact (le_index_iff hr hr0 hr360 hlevel (index_lt ..)).mp le_rfl

/-- Only coordinates just below a border overrun it. -/
theorem Overruns.near {level : Nat} (h : Overruns level v) (hv : v.Is q) (hlow : -180 ≤ q)
    (hhigh : q ≤ 180) :
    ∃ c : Cell, c.level = min level World.finestLevel ∧ q < corner c.level c.x ∧
      corner c.level c.x ≤ q + 2 ^ (-45 : Int) := by
  obtain ⟨r, hr, hround, -, -⟩ := exists_distance hv hlow hhigh
  obtain ⟨c, hc, hbelow, hdistance⟩ := h
  have herror := hround.error_le (k := 9) (by norm_num) (by norm_num) (by
    rw [abs_of_nonneg (by linarith)]
    norm_num
    linarith)
  refine ⟨c, hc, (hv.lt_iff (rect_exact c).1).mp hbelow, ?_⟩
  have hle := ((is_distance c).le_iff hr).mp hdistance
  have := (le_abs_self _).trans herror
  norm_num at this ⊢
  linarith

private theorem le_corner_succ_index (hv : v.Is q) (hlow : -180 ≤ q) (hhigh : q ≤ 180) {level : Nat}
    (hlevel : level ≤ World.finestLevel) : q ≤ corner level (index level v + 1) := by
  obtain ⟨r, hr, hround, hr0, hr360⟩ := exists_distance hv hlow hhigh
  rcases Nat.lt_or_ge (index level v + 1) (2 ^ level) with hlt | hge
  · by_contra hbeyond
    have hbeyond := not_le.mp hbeyond
    have hrep : Representable (corner level (index level v + 1) + 180) := by
      let c : Cell := ⟨level, index level v + 1, 0, hlevel, hlt, Nat.two_pow_pos _⟩
      exact (is_distance c).representable
    have := hround.ge hrep (by linarith)
    have := (le_index_iff hr hr0 hr360 hlevel hlt).mpr this
    omega
  · have hlast : index level v + 1 = 2 ^ level := le_antisymm (index_lt ..) hge
    rw [hlast, corner]
    push_cast
    rw [mul_div_cancel_right₀ _ (by positivity)]
    linarith

end

/-- The cell of a point holds it unless one of its coordinates overruns a border. -/
theorem meets_ofPoint_iff {p : Point Binary64} (hp : World.extent.holds p = true) (level : Nat) :
    (⟨p, p⟩ : Rect Binary64).meets (ofPoint p level).rect = true ↔
      ¬ Overruns level p.x ∧ ¬ Overruns level p.y := by
  obtain ⟨hlowX, hhighX, hlowY, hhighY⟩ := Rect.holds_iff.mp hp
  obtain ⟨qx, hqx, hx⟩ := exists_coordinate hlowX hhighX
  obtain ⟨qy, hqy, hy⟩ := exists_coordinate hlowY hhighY
  obtain ⟨hlox, hloy, hhix, hhiy⟩ := rect_exact (ofPoint p level)
  have hlevel := Nat.min_le_right level World.finestLevel
  rw [overruns_iff hqx hx.1 hx.2, overruns_iff hqy hy.1 hy.2, not_lt, not_lt, Rect.meets_iff,
    hqx.le_iff hhix, hlox.le_iff hqx, hqy.le_iff hhiy, hloy.le_iff hqy]
  have hhighX := le_corner_succ_index hqx hx.1 hx.2 hlevel
  have hhighY := le_corner_succ_index hqy hy.1 hy.2 hlevel
  exact ⟨fun h => ⟨h.2.1, h.2.2.2⟩, fun h => ⟨hhighX, h.1, hhighY, h.2⟩⟩

end Cell

/-- A point of the world is found through the coverings of all rectangles that hold it, at a level,
exactly if none of its coordinates overruns a border of the level. -/
theorem Rect.keyOf_mem_cover_iff {p : Point Binary64} (hp : World.extent.holds p = true)
    (level : Nat) :
    (∀ r : Rect Binary64, r.holds p = true → ∃ i ∈ r.cover level, Cell.keyOf p ∈ i) ↔
      ¬ Cell.Overruns level p.x ∧ ¬ Cell.Overruns level p.y := by
  rw [← Cell.meets_ofPoint_iff hp]
  have hkey := Cell.keyOf_mem_keys p level
  have hfound (r : Rect Binary64) : (∃ i ∈ r.cover level, Cell.keyOf p ∈ i) ↔
      r.meets (Cell.ofPoint p level).rect = true := by
    refine (covered_cover r level _).trans ⟨?_, fun hmeets => ⟨_, rfl, hkey, hmeets⟩⟩
    rintro ⟨c, hlevel, hc, hmeets⟩
    cases Cell.eq_of_mem_keys hlevel hc hkey
    exact hmeets
  constructor
  · intro hall
    obtain ⟨hlowX, hhighX, hlowY, hhighY⟩ := holds_iff.mp hp
    obtain ⟨qx, hqx, -⟩ := exists_coordinate hlowX hhighX
    obtain ⟨qy, hqy, -⟩ := exists_coordinate hlowY hhighY
    have hx := (hqx.le_iff hqx).mpr le_rfl
    have hy := (hqy.le_iff hqy).mpr le_rfl
    exact (hfound _).mp (hall ⟨p, p⟩ (holds_iff.mpr ⟨hx, hx, hy, hy⟩))
  · intro hmeets r hr
    obtain ⟨hlowX, hhighX, hlowY, hhighY⟩ := holds_iff.mp hr
    obtain ⟨hx, hx', hy, hy'⟩ := meets_iff.mp hmeets
    exact (hfound r).mpr (meets_iff.mpr ⟨Binary64.le_trans hlowX hx, Binary64.le_trans hx' hhighX,
      Binary64.le_trans hlowY hy, Binary64.le_trans hy' hhighY⟩)

/-- No coordinate of the inn is near a border. -/
theorem Rect.keyOf_inn_mem_cover :
    let p : Point Binary64 := ⟨1, 2⟩
    World.extent.holds p = true ∧ (¬ Cell.Overruns 6 p.x ∧ ¬ Cell.Overruns 6 p.y) ∧
      ∀ r : Rect Binary64, r.holds p = true → ∃ i ∈ r.cover 6, Cell.keyOf p ∈ i := by
  intro p
  have hp : World.extent.holds p = true := by decide +kernel
  have hclear : ¬ Cell.Overruns 6 p.x ∧ ¬ Cell.Overruns 6 p.y := by
    have hone : (p.x).Is 1 := by exact_mod_cast Is.natCast (n := 1) (by decide)
    have htwo : (p.y).Is 2 := by exact_mod_cast Is.natCast (n := 2) (by decide)
    rw [Cell.overruns_iff hone (by norm_num) (by norm_num),
      Cell.overruns_iff htwo (by norm_num) (by norm_num)]
    have hx : Cell.index (min 6 World.finestLevel) p.x = 32 := by decide +kernel
    have hy : Cell.index (min 6 World.finestLevel) p.y = 32 := by decide +kernel
    rw [hx, hy]
    norm_num [Cell.corner, World.finestLevel]
  exact ⟨hp, hclear, (keyOf_mem_cover_iff hp 6).mpr hclear⟩

/-- A point just below the meridian is not found where it is: the sum of its coordinate and 180 is
rounded up to 180. -/
theorem Rect.keyOf_not_mem_cover :
    ¬ ∀ p : Point Binary64, World.extent.holds p = true →
      ∀ r : Rect Binary64, r.holds p = true → ∀ level, ∃ i ∈ r.cover level, Cell.keyOf p ∈ i := by
  intro h
  let p : Point Binary64 := ⟨⟨0xbc30000000000000⟩, 0⟩
  have := h p (by decide +kernel) ⟨p, p⟩ (by decide +kernel) 1
  revert this
  decide +kernel

end Gazetteer
