import Gazetteer.Proofs.Binary64.Exact
import Gazetteer.Proofs.Geometry.Cells

/-! The squares of cells are nested as the cells are. In binary64 this holds because their corners
are exact. -/
namespace Gazetteer

namespace Rect

variable {α : Type} [Scalar α]

/-- Rectangles meet if neither is beyond an end of the other on any axis. -/
theorem meets_iff {r s : Rect α} :
    r.meets s = true ↔
      r.lo.x ≤ s.hi.x ∧ s.lo.x ≤ r.hi.x ∧ r.lo.y ≤ s.hi.y ∧ s.lo.y ≤ r.hi.y := by
  simp [meets, and_assoc]

theorem contains_iff {r s : Rect α} :
    r.contains s = true ↔
      r.lo.x ≤ s.lo.x ∧ s.hi.x ≤ r.hi.x ∧ r.lo.y ≤ s.lo.y ∧ s.hi.y ≤ r.hi.y := by
  simp [contains, and_assoc]

theorem holds_iff {r : Rect α} {p : Point α} :
    r.holds p = true ↔ r.lo.x ≤ p.x ∧ p.x ≤ r.hi.x ∧ r.lo.y ≤ p.y ∧ p.y ≤ r.hi.y := by
  simp [holds, and_assoc]

end Rect

namespace Cell

/-- A kind of number in which the squares of cells are nested. -/
class Nested (α : Type) [Scalar α] : Prop where
  trans {a b c : α} : a ≤ b → b ≤ c → a ≤ c
  ordered (c : Cell) :
    (c.rect : Rect α).lo.x ≤ (c.rect : Rect α).hi.x ∧ (c.rect : Rect α).lo.y ≤ (c.rect : Rect α).hi.y
  child {c d : Cell} : d ∈ c.children → (c.rect : Rect α).contains d.rect = true

section
variable {α : Type} [Scalar α] [Nested α]

/-- What a rectangle meets it also meets in a larger rectangle. -/
theorem Nested.meets_mono {r s t : Rect α} (h : t.contains s = true) (hr : r.meets s = true) :
    r.meets t = true := by
  rw [Rect.contains_iff] at h
  rw [Rect.meets_iff] at hr ⊢
  exact ⟨trans hr.1 h.2.1, trans h.1 hr.2.1, trans hr.2.2.1 h.2.2.2, trans h.2.2.1 hr.2.2.2⟩

/-- A larger rectangle meets what a smaller one meets. -/
theorem Nested.meets_of_larger {r s t : Rect α} (h : t.contains r = true) (hs : r.meets s = true) :
    t.meets s = true := by
  rw [Rect.contains_iff] at h
  rw [Rect.meets_iff] at hs ⊢
  exact ⟨trans h.1 hs.1, trans hs.2.1 h.2.1, trans h.2.2.1 hs.2.2.1, trans hs.2.2.2 h.2.2.2⟩

theorem Nested.contains_trans {r s t : Rect α} (h : r.contains s = true) (h' : s.contains t = true) :
    r.contains t = true := by
  rw [Rect.contains_iff] at h h' ⊢
  exact ⟨trans h.1 h'.1, trans h'.2.1 h.2.1, trans h.2.2.1 h'.2.2.1, trans h'.2.2.2 h.2.2.2⟩

theorem Nested.meets_of_contains {r s : Rect α} (h : r.contains s = true)
    (hx : s.lo.x ≤ s.hi.x) (hy : s.lo.y ≤ s.hi.y) : r.meets s = true := by
  rw [Rect.contains_iff] at h
  rw [Rect.meets_iff]
  exact ⟨trans h.1 hx, trans hx h.2.1, trans h.2.2.1 hy, trans hy h.2.2.2⟩

theorem Nested.holds_of_contains {r s : Rect α} {p : Point α} (h : r.contains s = true)
    (hp : s.holds p = true) : r.holds p = true := by
  rw [Rect.contains_iff] at h
  rw [Rect.holds_iff] at hp ⊢
  exact ⟨trans h.1 hp.1, trans hp.2.1 h.2.1, trans h.2.2.1 hp.2.2.1, trans hp.2.2.2 h.2.2.2⟩

theorem Nested.meets_of_holds {r s : Rect α} {p : Point α} (hr : r.holds p = true)
    (hs : s.holds p = true) : r.meets s = true := by
  rw [Rect.holds_iff] at hr hs
  rw [Rect.meets_iff]
  exact ⟨trans hr.1 hs.2.1, trans hs.1 hr.2.1, trans hr.2.2.1 hs.2.2.2, trans hs.2.2.1 hr.2.2.2⟩

/-- The square of a cell contains the squares of the cells below it. -/
theorem Nested.contains_below {c d : Cell} {depth key : Nat} (hlevel : d.level = c.level + depth + 1)
    (hc : key ∈ c.keys) (hd : key ∈ d.keys) : (c.rect : Rect α).contains d.rect = true := by
  induction depth generalizing d with
  | zero =>
    obtain ⟨p, hp, hchild⟩ := exists_parent hlevel
    cases eq_of_mem_keys hp (mem_keys_of_mem_children hchild hd) hc
    exact child hchild
  | succ depth ih =>
    obtain ⟨p, hp, hchild⟩ := exists_parent hlevel
    exact contains_trans (ih hp (mem_keys_of_mem_children hchild hd)) (child hchild)

end

/-- The lower bound of a column (or row) of the grid of a level; the upper bound is that of the
next. -/
def corner (level n : Nat) : ℚ := 360 * n / 2 ^ level - 180

theorem corner_mono (level : Nat) {m n : Nat} (h : m ≤ n) : corner level m ≤ corner level n := by
  have : (m : ℚ) ≤ n := by exact_mod_cast h
  unfold corner
  gcongr

private theorem corner_double (level n : Nat) : corner (level + 1) (2 * n) = corner level n := by
  unfold corner
  rw [pow_succ]
  push_cast
  field_simp

/-- The multiples of a power of two are representable. -/
theorem representable_div {level : Nat} (hlevel : level ≤ World.finestLevel) {M : Int}
    (hM : |M| < 2 ^ 53) : Binary64.Representable (M / 2 ^ level) := by
  have hle : level ≤ 24 := hlevel
  refine ⟨M, -level, hM, by omega, by omega, ?_⟩
  rw [zpow_neg, zpow_natCast, div_eq_mul_inv]

theorem le_of_le_pow {level n : Nat} (hlevel : level ≤ World.finestLevel)
    (hn : n ≤ 2 ^ level) : n ≤ 2 ^ 24 :=
  hn.trans (Nat.pow_le_pow_right (by decide) hlevel)

theorem is_lower : (World.lower : Binary64).Is (-180) := by
  have hparts : (World.lower : Binary64).unpacked =
      .finite .negative 6333186975989760 (-45) (by decide) := rfl
  rw [Binary64.Is, Binary64.place, hparts, Binary64.placeOf, Binary64.ofParts_negative]
  norm_num

private theorem is_side (c : Cell) : (c.side : Binary64).Is (360 / 2 ^ c.level) := by
  have hworld : (World.side : Binary64).Is 360 := Binary64.Is.natCast (by decide)
  have hcells : ((2 ^ c.level : Nat) : Binary64).Is (2 ^ c.level) :=
    Binary64.Is.two_pow (Nat.lt_of_le_of_lt c.level_le (by decide))
  have hrep : Binary64.Representable (360 / 2 ^ c.level) :=
    representable_div c.level_le (M := 360) (by decide)
  exact hworld.div hcells (by positivity) hrep

private theorem representable_corner {level n : Nat} (hlevel : level ≤ World.finestLevel)
    (hn : n ≤ 2 ^ level) : Binary64.Representable (corner level n) := by
  have hpow := le_of_le_pow hlevel (Nat.le_refl _)
  have hcorner : corner level n = ((360 * n - 180 * (2 ^ level : Nat) : Int) : ℚ) / 2 ^ level := by
    unfold corner
    push_cast
    field_simp
  rw [hcorner]
  exact representable_div hlevel (abs_lt.mpr (by omega))

private theorem is_corner (c : Cell) {n : Nat} (hn : n ≤ 2 ^ c.level) :
    ((n : Binary64) * c.side + World.lower).Is (corner c.level n) := by
  have hpow := le_of_le_pow c.level_le hn
  have hnat : (n : Binary64).Is n := Binary64.Is.natCast (Nat.lt_of_le_of_lt hpow (by decide))
  have hprod : (n : ℚ) * (360 / 2 ^ c.level) = ((n * 360 : Int) : ℚ) / 2 ^ c.level := by
    push_cast
    ring
  have hmul := hnat.mul (is_side c) (by
    rw [hprod]
    exact representable_div c.level_le (abs_lt.mpr (by omega)))
  have hsum : (n : ℚ) * (360 / 2 ^ c.level) + -180 = corner c.level n := by
    unfold corner
    ring
  have hadd := hmul.add is_lower (by
    rw [hsum]
    exact representable_corner c.level_le hn)
  rwa [hsum] at hadd

private theorem is_corner_succ (c : Cell) {n : Nat} (hn : n < 2 ^ c.level) :
    ((n : Binary64) * c.side + World.lower + c.side).Is (corner c.level (n + 1)) := by
  have hsum : corner c.level n + 360 / 2 ^ c.level = corner c.level (n + 1) := by
    unfold corner
    push_cast
    ring
  have hadd := (is_corner c hn.le).add (is_side c) (by
    rw [hsum]
    exact representable_corner c.level_le hn)
  rwa [hsum] at hadd

/-- Corners of cells are computed without rounding. -/
theorem rect_exact (c : Cell) :
    (c.rect : Rect Binary64).lo.x.Is (corner c.level c.x) ∧
      (c.rect : Rect Binary64).lo.y.Is (corner c.level c.y) ∧
      (c.rect : Rect Binary64).hi.x.Is (corner c.level (c.x + 1)) ∧
      (c.rect : Rect Binary64).hi.y.Is (corner c.level (c.y + 1)) :=
  ⟨is_corner c c.x_lt.le, is_corner c c.y_lt.le, is_corner_succ c c.x_lt, is_corner_succ c c.y_lt⟩

/-- The square of a cell lies in that of its parent, on each axis. -/
theorem corner_within {level n m : Nat} (h : m / 2 = n) :
    corner level n ≤ corner (level + 1) m ∧ corner (level + 1) (m + 1) ≤ corner level (n + 1) := by
  have hlow : 2 * n ≤ m := by omega
  have hhigh : m + 1 ≤ 2 * (n + 1) := by omega
  rw [← corner_double level n, ← corner_double level (n + 1)]
  exact ⟨corner_mono _ hlow, corner_mono _ hhigh⟩

instance : Nested Binary64 where
  trans := Binary64.le_trans
  ordered c := by
    obtain ⟨hlox, hloy, hhix, hhiy⟩ := rect_exact c
    exact ⟨(hlox.le_iff hhix).mpr (corner_mono _ (Nat.le_succ _)),
      (hloy.le_iff hhiy).mpr (corner_mono _ (Nat.le_succ _))⟩
  child {c d} h := by
    obtain ⟨hlevel, hx, hy⟩ := mem_children_iff.mp h
    obtain ⟨hlox, hloy, hhix, hhiy⟩ := rect_exact c
    obtain ⟨hlox', hloy', hhix', hhiy'⟩ := rect_exact d
    rw [hlevel] at hlox' hloy' hhix' hhiy'
    rw [Rect.contains_iff]
    exact ⟨(hlox.le_iff hlox').mpr (corner_within hx).1, (hhix'.le_iff hhix).mpr (corner_within hx).2,
      (hloy.le_iff hloy').mpr (corner_within hy).1, (hhiy'.le_iff hhiy).mpr (corner_within hy).2⟩

/-- If the finest cell of a point holds it, so do the cells above that one. -/
theorem exists_holds {p : Point Binary64} {level : Nat} (hlevel : level ≤ World.finestLevel)
    (h : (ofPoint p World.finestLevel).rect.holds p = true) :
    ∃ c : Cell, c.level = level ∧ keyOf p ∈ c.keys ∧ c.rect.holds p = true := by
  have hfinest : keyOf p ∈ (ofPoint p World.finestLevel).keys := mem_keys_iff.mpr (Nat.div_one _)
  obtain ⟨c, hc, hkey⟩ := exists_mem_keys hlevel (lt_of_mem_keys hfinest)
  refine ⟨c, hc, hkey, ?_⟩
  rcases Nat.eq_or_lt_of_le hlevel with heq | hlt
  · cases eq_of_mem_keys (hc.trans heq) hkey hfinest
    exact h
  · have hbelow : World.finestLevel = c.level + (World.finestLevel - level - 1) + 1 := by omega
    exact Nested.holds_of_contains (Nested.contains_below hbelow hkey hfinest) h

end Cell
end Gazetteer
