import Gazetteer.Geometry.Cell

/-! The hierarchy of cells by their keys. The cells of a level share out the keys, and the children
of a cell share out its keys in their order. -/
namespace Gazetteer

-- Powers of natural numbers are those of core.
attribute [local instance (high)] instPowNat

private theorem interleave_lt (n x y : Nat) : interleave n x y < 4 ^ n := by
  induction n generalizing x y with
  | zero => exact Nat.one_pos
  | succ n ih =>
    have := ih (x / 2) (y / 2)
    rw [interleave, Nat.pow_succ]
    omega

private theorem interleave_succ_div (n x y : Nat) :
    interleave (n + 1) x y / 4 = interleave n (x / 2) (y / 2) := by
  rw [interleave]
  omega

/-- Codes tell cells apart. -/
theorem interleave_injective {n x y x' y' : Nat} (hx : x < 2 ^ n) (hy : y < 2 ^ n)
    (hx' : x' < 2 ^ n) (hy' : y' < 2 ^ n) (h : interleave n x y = interleave n x' y') :
    x = x' ∧ y = y' := by
  induction n generalizing x y x' y' with
  | zero =>
    simp only [Nat.pow_zero] at hx hy hx' hy'
    omega
  | succ n ih =>
    rw [Nat.pow_succ] at hx hy hx' hy'
    have hhalf : interleave n (x / 2) (y / 2) = interleave n (x' / 2) (y' / 2) := by
      rw [← interleave_succ_div, ← interleave_succ_div, h]
    have := ih (by omega) (by omega) (by omega) (by omega) hhalf
    rw [interleave, interleave] at h
    omega

private theorem exists_interleave {n code : Nat} (h : code < 4 ^ n) :
    ∃ x y, x < 2 ^ n ∧ y < 2 ^ n ∧ interleave n x y = code := by
  induction n generalizing code with
  | zero => exact ⟨0, 0, Nat.one_pos, Nat.one_pos, (Nat.lt_one_iff.mp h).symm⟩
  | succ n ih =>
    rw [Nat.pow_succ] at h
    have hquarter : code / 4 < 4 ^ n := by omega
    obtain ⟨x, y, hx, hy, hxy⟩ := ih hquarter
    refine ⟨2 * x + code % 2, 2 * y + code / 2 % 2, ?_, ?_, ?_⟩
    · rw [Nat.pow_succ]
      omega
    · rw [Nat.pow_succ]
      omega
    · have hhalfX : (2 * x + code % 2) / 2 = x := by omega
      have hhalfY : (2 * y + code / 2 % 2) / 2 = y := by omega
      rw [interleave, hhalfX, hhalfY, hxy]
      omega

namespace Cell

private theorem span_succ {level : Nat} (h : level < World.finestLevel) :
    4 ^ (World.finestLevel - level) = 4 ^ (World.finestLevel - (level + 1)) * 4 := by
  rw [← Nat.pow_succ]
  congr 1
  omega

private theorem span_pos (level : Nat) : 0 < 4 ^ (World.finestLevel - level) :=
  Nat.pow_pos (by decide)

theorem code_lt (c : Cell) : c.code < 4 ^ c.level := interleave_lt ..

private theorem eq_of_code {c d : Cell} (hlevel : c.level = d.level) (hcode : c.code = d.code) :
    c = d := by
  obtain ⟨level, x, y, _, hx, hy⟩ := c
  obtain ⟨level', x', y', _, hx', hy'⟩ := d
  cases hlevel
  obtain ⟨rfl, rfl⟩ := interleave_injective hx hy hx' hy' hcode
  rfl

/-- The keys of a cell are those that lead to its code. -/
theorem mem_keys_iff {c : Cell} {key : Nat} :
    key ∈ c.keys ↔ key / 4 ^ (World.finestLevel - c.level) = c.code := by
  have hpos := span_pos c.level
  change c.code * _ ≤ key ∧ key < (c.code + 1) * _ ↔ _
  rw [← Nat.le_div_iff_mul_le hpos, ← Nat.div_lt_iff_lt_mul hpos]
  omega

/-- A key belongs to one cell of a level at most. -/
theorem eq_of_mem_keys {c d : Cell} {key : Nat} (hlevel : c.level = d.level) (hc : key ∈ c.keys)
    (hd : key ∈ d.keys) : c = d := by
  apply eq_of_code hlevel
  rw [← mem_keys_iff.mp hc, ← mem_keys_iff.mp hd, hlevel]

/-- Every key belongs to a cell of each level. -/
theorem exists_mem_keys {level key : Nat} (hlevel : level ≤ World.finestLevel)
    (hkey : key < 4 ^ World.finestLevel) : ∃ c : Cell, c.level = level ∧ key ∈ c.keys := by
  have hcode : key / 4 ^ (World.finestLevel - level) < 4 ^ level := by
    rw [Nat.div_lt_iff_lt_mul (span_pos level), ← Nat.pow_add]
    exact Nat.lt_of_lt_of_eq hkey (by congr 1; omega)
  obtain ⟨x, y, hx, hy, hxy⟩ := exists_interleave hcode
  exact ⟨⟨level, x, y, hlevel, hx, hy⟩, rfl, mem_keys_iff.mpr hxy.symm⟩

theorem keys_nonempty (c : Cell) : c.keys.lo < c.keys.hi :=
  Nat.mul_lt_mul_of_pos_right (Nat.lt_succ_self _) (span_pos c.level)

theorem keys_hi_le (c : Cell) : c.keys.hi ≤ 4 ^ World.finestLevel := by
  have hle := c.level_le
  have hpow : 4 ^ World.finestLevel = 4 ^ c.level * 4 ^ (World.finestLevel - c.level) := by
    rw [← Nat.pow_add]
    congr 1
    omega
  rw [hpow]
  exact Nat.mul_le_mul_right _ c.code_lt

/-- Keys of cells have 48 bits. -/
theorem lt_of_mem_keys {c : Cell} {key : Nat} (h : key ∈ c.keys) : key < 4 ^ World.finestLevel :=
  Nat.lt_of_lt_of_le h.2 c.keys_hi_le

/-- The children of a cell are the cells of the next level in its quarters. -/
theorem mem_children_iff {c d : Cell} :
    d ∈ c.children ↔ d.level = c.level + 1 ∧ d.x / 2 = c.x ∧ d.y / 2 = c.y := by
  obtain ⟨level, x, y, hlevel, hx, hy⟩ := c
  obtain ⟨level', x', y', hlevel', hx', hy'⟩ := d
  unfold children
  split
  · simp only [List.mem_cons, mk.injEq, List.not_mem_nil, or_false]
    omega
  · next h =>
    simp only [List.not_mem_nil, false_iff]
    dsimp only at h ⊢
    omega

private theorem code_of_mem_children {c d : Cell} (h : d ∈ c.children) : d.code / 4 = c.code := by
  obtain ⟨hlevel, hx, hy⟩ := mem_children_iff.mp h
  rw [code, hlevel, interleave_succ_div, hx, hy]
  rfl

/-- A cell below the world is a child. -/
theorem exists_parent {d : Cell} {level : Nat} (h : d.level = level + 1) :
    ∃ c : Cell, c.level = level ∧ d ∈ c.children := by
  have hle := d.level_le
  have hx := d.x_lt
  have hy := d.y_lt
  rw [h, Nat.pow_succ] at hx hy
  exact ⟨⟨level, d.x / 2, d.y / 2, by omega, by omega, by omega⟩, rfl,
    mem_children_iff.mpr ⟨h, rfl, rfl⟩⟩

private theorem level_lt_of_mem_children {c d : Cell} (h : d ∈ c.children) :
    c.level < World.finestLevel := by
  have := (mem_children_iff.mp h).1
  have := d.level_le
  omega

theorem mem_keys_of_mem_children {c d : Cell} (h : d ∈ c.children) {key : Nat} (hkey : key ∈ d.keys) :
    key ∈ c.keys := by
  rw [mem_keys_iff] at hkey ⊢
  rw [span_succ (level_lt_of_mem_children h), ← (mem_children_iff.mp h).1, ← Nat.div_div_eq_div_mul,
    hkey, code_of_mem_children h]

/-- A cell's keys are shared out among its children. -/
theorem exists_child {c : Cell} (h : c.level < World.finestLevel) {key : Nat} (hkey : key ∈ c.keys) :
    ∃ d ∈ c.children, key ∈ d.keys := by
  obtain ⟨d, hlevel, hd⟩ := exists_mem_keys (Nat.succ_le_of_lt h) (lt_of_mem_keys hkey)
  obtain ⟨p, hp, hchild⟩ := exists_parent hlevel
  cases eq_of_mem_keys hp (mem_keys_of_mem_children hchild hd) hkey
  exact ⟨d, hchild, hd⟩

/-- The keys of a child are keys of its parent. -/
theorem keys_within_parent {c d : Cell} (h : d ∈ c.children) :
    c.keys.lo ≤ d.keys.lo ∧ d.keys.hi ≤ c.keys.hi := by
  have hcode := code_of_mem_children h
  simp only [keys, span_succ (level_lt_of_mem_children h), ← (mem_children_iff.mp h).1]
  rw [Nat.mul_comm (4 ^ _) 4, ← Nat.mul_assoc, ← Nat.mul_assoc]
  exact ⟨Nat.mul_le_mul_right _ (by omega), Nat.mul_le_mul_right _ (by omega)⟩

private theorem interleave_quarter (n x y : Nat) {dx dy : Nat} (hx : dx < 2) (hy : dy < 2) :
    interleave (n + 1) (2 * x + dx) (2 * y + dy) = 4 * interleave n x y + 2 * dy + dx := by
  have hx' : (2 * x + dx) / 2 = x ∧ (2 * x + dx) % 2 = dx := by omega
  have hy' : (2 * y + dy) / 2 = y ∧ (2 * y + dy) % 2 = dy := by omega
  rw [interleave, hx'.1, hx'.2, hy'.1, hy'.2]

/-- The codes of the children follow each other. -/
theorem map_code_children {c : Cell} (h : c.level < World.finestLevel) :
    c.children.map code = [4 * c.code, 4 * c.code + 1, 4 * c.code + 2, 4 * c.code + 3] := by
  have hquarter {dx dy : Nat} (hx : dx < 2) (hy : dy < 2) :=
    interleave_quarter c.level c.x c.y hx hy
  rw [children, dif_pos h]
  simp only [List.map_cons, List.map_nil, code, hquarter Nat.zero_lt_two Nat.zero_lt_two,
    hquarter Nat.one_lt_two Nat.zero_lt_two, hquarter Nat.zero_lt_two Nat.one_lt_two,
    hquarter Nat.one_lt_two Nat.one_lt_two]
  rfl

/-- The children of a cell share out its keys in their order. -/
theorem pairwise_children (c : Cell) : c.children.Pairwise fun a b => a.keys.hi ≤ b.keys.lo := by
  have hcodes : c.children.Pairwise fun a b => a.code < b.code := by
    rw [← List.pairwise_map]
    by_cases h : c.level < World.finestLevel
    · rw [map_code_children h]
      repeat' apply List.Pairwise.cons
      all_goals simp
    · rw [children, dif_neg h]
      exact .nil
  apply hcodes.imp_of_mem
  intro a b ha hb hcode
  have hlevel : a.level = b.level := by rw [(mem_children_iff.mp ha).1, (mem_children_iff.mp hb).1]
  rw [keys, keys, hlevel]
  exact Nat.mul_le_mul_right _ hcode

end Cell
end Gazetteer
