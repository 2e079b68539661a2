import Gazetteer.Proofs.Binary64.Thresholds
import Gazetteer.Proofs.Geometry.Hierarchy

/-! The cells of one point. Each level finds the column of a coordinate anew, but from the same
number: the coordinate in units of the world's side. The column is told by the borders that this
number reaches, and the borders of a level are borders of the next one. So the cells of a point are
nested, wherever it lies. -/
namespace Gazetteer.Cell
open Binary64

-- Powers of natural numbers are those of core.
attribute [local instance (high)] instPowNat

/-- A column is reached by the numbers that reach its lower border. -/
theorem le_index_iff_atLeast {level n : Nat} (hlevel : level ≤ World.finestLevel) (v : Binary64) :
    n ≤ index level v ↔
      n = 0 ∨ n < 2 ^ level ∧ ((v - World.lower) / World.side).AtLeast (n / 2 ^ level) := by
  rcases Nat.eq_zero_or_pos n with rfl | hpos
  · exact iff_of_true (Nat.zero_le _) (.inl rfl)
  · have hlevel : level ≤ 24 := hlevel
    have hcells : ((2 ^ level : Nat) : Binary64).Is (2 ^ level) := Is.two_pow (by omega)
    have hmin (m : Nat) : n ≤ min m (2 ^ level - 1) ↔ n < 2 ^ level ∧ n ≤ m := by
      have := Nat.two_pow_pos level
      omega
    rw [index, hmin, or_iff_right hpos.ne']
    refine and_congr_right fun hn => ?_
    have hn' : n < 2 ^ 32 := hn.trans (Nat.pow_lt_pow_right (by decide) (by omega))
    have hsmall : |(n : ℚ)| < 2 ^ (1024 : Int) := by
      rw [Nat.abs_cast]
      exact (natCast_le_largest (hn'.trans (by decide))).trans_lt largest_lt
    rw [le_truncate_iff hpos hn', atLeast_mul_two_pow_iff hcells hsmall]

/-- The columns of a level are halved at the next. -/
theorem index_succ_div {level : Nat} (hlevel : level < World.finestLevel) (v : Binary64) :
    index (level + 1) v / 2 = index level v := by
  refine eq_of_forall_le_iff fun n => ?_
  have hborder : ((n * 2 : Nat) : ℚ) / 2 ^ (level + 1) = n / 2 ^ level := by
    push_cast
    rw [pow_succ, mul_div_mul_right _ _ two_ne_zero]
  have hlt : n * 2 < 2 ^ (level + 1) ↔ n < 2 ^ level := by
    rw [Nat.pow_succ]
    omega
  rw [Nat.le_div_iff_mul_le Nat.two_pos, le_index_iff_atLeast hlevel, hborder, hlt,
    le_index_iff_atLeast hlevel.le, Nat.mul_eq_zero, or_iff_left two_ne_zero]

/-- The cell of a point at one level is the parent of its cell at the next. -/
theorem parent?_ofPoint {level : Nat} (hlevel : level < World.finestLevel) (p : Point Binary64) :
    (ofPoint p (level + 1)).parent? = some (ofPoint p level) := by
  rw [parent?_eq_some_iff, mem_children_iff]
  simp only [ofPoint, Nat.min_eq_left hlevel, Nat.min_eq_left hlevel.le]
  exact ⟨trivial, index_succ_div hlevel p.x, index_succ_div hlevel p.y⟩

/-- Parent steps lead from the finest cell of a point to its cells at all levels. -/
theorem below_ofPoint (p : Point Binary64) (level : Nat) :
    (ofPoint p World.finestLevel).Below (ofPoint p level) := by
  have hcapped : ofPoint p level = ofPoint p (min level World.finestLevel) := by
    simp only [ofPoint, Nat.min_assoc, Nat.min_self]
  have hdown {fine : Nat} (hcoarse : min level World.finestLevel ≤ fine)
      (hfine : fine ≤ World.finestLevel) : (ofPoint p fine).Below (ofPoint p level) := by
    induction fine, hcoarse using Nat.le_induction with
    | base => exact hcapped ▸ .refl
    | succ fine _ ih => exact (ih (Nat.le_of_succ_le hfine)).head (parent?_ofPoint hfine p)
  exact hdown (Nat.min_le_right ..) le_rfl

/-- The cells of a point at all levels hold its key. -/
theorem keyOf_mem_keys (p : Point Binary64) (level : Nat) : keyOf p ∈ (ofPoint p level).keys := by
  obtain ⟨hlo, hhi⟩ := (below_ofPoint p level).inside
  have hfinest : keyOf p ∈ (ofPoint p World.finestLevel).keys := mem_keys_iff.mpr (Nat.div_one _)
  exact ⟨hlo.trans hfinest.1, hfinest.2.trans_le hhi⟩

/-- The cells of a point are nested: parent steps lead from the finest one to that of each level, so
this holds the point's key. Its column and its row are the last that the coordinates reach. In units
of the world's side, column `n` of level `l` begins at `n / 2 ^ l`; infinity reaches the last one,
and not-a-number the first one alone. -/
theorem ofPoint_nested (p : Point Binary64) (level : Nat) :
    let cell := ofPoint p level
    let l := min level 24
    cell.level = l ∧
      Relation.ReflTransGen (fun c parent : Cell => c.parent? = some parent) (ofPoint p 24) cell ∧
      keyOf p ∈ cell.keys ∧
      ∀ n : Nat,
        (n ≤ cell.x ↔
          n = 0 ∨ n < 2 ^ l ∧ ((p.x - World.lower) / World.side).AtLeast (n / 2 ^ l)) ∧
        (n ≤ cell.y ↔
          n = 0 ∨ n < 2 ^ l ∧ ((p.y - World.lower) / World.side).AtLeast (n / 2 ^ l)) := by
  intro cell l
  refine ⟨rfl, below_ofPoint p level, keyOf_mem_keys p level, fun n => ?_⟩
  have hlevel := Nat.min_le_right level World.finestLevel
  exact ⟨le_index_iff_atLeast hlevel p.x, le_index_iff_atLeast hlevel p.y⟩

/-- Not-a-number is in the first column, and infinity in the last row. -/
example : ((ofPoint ⟨.nan, .infinity⟩ 3).x, (ofPoint ⟨.nan, .infinity⟩ 3).y) = (0, 7) := by
  decide +kernel

end Gazetteer.Cell
