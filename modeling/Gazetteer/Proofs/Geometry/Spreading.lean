import Gazetteer.Proofs.Geometry.Cells
import Mathlib.Algebra.Group.Nat.Defs

/-! Codes and keys of cells in machine words. The bits of a word are spread apart by moving halves
of blocks, the largest blocks first; the spread column and row together are the code, and neither
codes nor keys ever leave the word. -/
namespace Gazetteer

-- Powers of natural numbers are those of core.
attribute [local instance (high)] instPowNat

/-- Moves the upper half of each block of bits up by its width; the mask keeps the lower half of
each block of the result. -/
def halveBlocks (width mask : UInt64) (v : UInt64) : UInt64 := (v ||| v <<< width) &&& mask

/-- Spreads the bits of a word: the one at place `n` comes to place `2 * n`. -/
def spread (v : UInt32) : UInt64 :=
  halveBlocks 1 0x5555555555555555 <|
  halveBlocks 2 0x3333333333333333 <|
  halveBlocks 4 0x0F0F0F0F0F0F0F0F <|
  halveBlocks 8 0x00FF00FF00FF00FF <|
  halveBlocks 16 0x0000FFFF0000FFFF v.toUInt64

/-- In each block of `2 * t` bits stand the next `t` bits of `x`, and then zeros. -/
private def Blocks (t x : Nat) (v : UInt64) : Prop :=
  ∀ q s, s < 2 * t → 2 * t * q + s < 64 →
    v.toNat.testBit (2 * t * q + s) = (decide (s < t) && x.testBit (t * q + s))

private theorem blocks_word (v : UInt32) : Blocks 32 v.toNat v.toUInt64 := by
  intro q s hs hlt
  obtain rfl : q = 0 := by omega
  simp only [Nat.mul_zero, Nat.zero_add, UInt32.toNat_toUInt64]
  by_cases h : s < 32
  · simp [h]
  · have hbig : v.toNat < 2 ^ s :=
      Nat.lt_of_lt_of_le v.toNat_lt (Nat.pow_le_pow_right (by decide) (by omega))
    simp [h, Nat.testBit_lt_two_pow hbig]

/-- The mask has the lower half of each block of `2 * t` bits. -/
private def Masks (t : Nat) (mask : UInt64) : Prop :=
  ∀ n < 64, mask.toNat.testBit n = decide (n % (2 * t) < t)

private instance (t : Nat) (mask : UInt64) : Decidable (Masks t mask) :=
  inferInstanceAs (Decidable (∀ n < 64, _))

private theorem testBit_halveBlocks {t : Nat} {width mask v : UInt64} (hwidth : width.toNat = t)
    (ht : t < 64) (hmask : Masks t mask) {n : Nat} (hn : n < 64) :
    (halveBlocks width mask v).toNat.testBit n =
      ((v.toNat.testBit n || decide (t ≤ n) && v.toNat.testBit (n - t)) &&
        decide (n % (2 * t) < t)) := by
  rw [halveBlocks, UInt64.toNat_and, UInt64.toNat_or, UInt64.toNat_shiftLeft, hwidth,
    Nat.mod_eq_of_lt ht, Nat.testBit_and, Nat.testBit_or, Nat.testBit_mod_two_pow,
    Nat.testBit_shiftLeft, hmask n hn, decide_eq_true hn, Bool.true_and]

section
variable {t x q s : Nat} {v : UInt64}

private theorem Blocks.lower (h : Blocks t x v) (hs : s < t) (hlt : 2 * t * q + s < 64) :
    v.toNat.testBit (2 * t * q + s) = x.testBit (t * q + s) := by
  rw [h q s (by omega) hlt, decide_eq_true hs, Bool.true_and]

private theorem Blocks.upper (h : Blocks t x v) (hs : t ≤ s) (hs' : s < 2 * t)
    (hlt : 2 * t * q + s < 64) : v.toNat.testBit (2 * t * q + s) = false := by
  rw [h q s hs' hlt, decide_eq_false (Nat.not_lt.mpr hs), Bool.false_and]

private theorem blocks_halve {width mask : UInt64} (h : Blocks (2 * t) x v)
    (hwidth : width.toNat = t) (ht : t < 64) (hmask : Masks t mask) :
    Blocks t x (halveBlocks width mask v) := by
  -- What the shift brings besides the upper half is zeros, or it is masked away.
  intro q s hs hlt
  rw [testBit_halveBlocks hwidth ht hmask hlt, Nat.mul_add_mod, Nat.mod_eq_of_lt hs]
  by_cases hst : s < t
  · rw [decide_eq_true hst, Bool.and_true, Bool.true_and]
    rcases Nat.mod_two_eq_zero_or_one q with hq | hq
    · obtain ⟨p, rfl⟩ : ∃ p, q = 2 * p := ⟨q / 2, by omega⟩
      have hplace : 2 * t * (2 * p) + s = 2 * (2 * t) * p + s := by grind
      have hsource : t * (2 * p) + s = 2 * t * p + s := by grind
      rw [hplace] at hlt ⊢
      rw [hsource, h.lower hs hlt]
      cases p with
      | zero => simp [Nat.not_le.mpr hst]
      | succ p =>
        -- What is shifted here stood in the upper half of the block before.
        have hnext : 2 * (2 * t) * (p + 1) = 2 * (2 * t) * p + 4 * t := by grind
        have hbefore : 2 * (2 * t) * (p + 1) + s - t = 2 * (2 * t) * p + (3 * t + s) := by omega
        rw [hbefore, h.upper (by omega) (by omega) (by omega), Bool.and_false, Bool.or_false]
    · obtain ⟨p, rfl⟩ : ∃ p, q = 2 * p + 1 := ⟨q / 2, by omega⟩
      have hplace : 2 * t * (2 * p + 1) + s = 2 * (2 * t) * p + (2 * t + s) := by grind
      have hsource : t * (2 * p + 1) + s = 2 * t * p + (t + s) := by grind
      have hmoved : 2 * (2 * t) * p + (2 * t + s) - t = 2 * (2 * t) * p + (t + s) := by omega
      rw [hplace] at hlt ⊢
      rw [hsource, hmoved, h.upper (by omega) (by omega) hlt, h.lower (by omega) (by omega),
        decide_eq_true (by omega), Bool.true_and, Bool.false_or]
  · rw [decide_eq_false hst, Bool.and_false, Bool.false_and]

end

private theorem testBit_spread (v : UInt32) {n : Nat} (hn : n < 32) :
    (spread v).toNat.testBit (2 * n) = v.toNat.testBit n ∧
      (spread v).toNat.testBit (2 * n + 1) = false := by
  have h16 := blocks_halve (t := 16) (blocks_word v) (rfl : (16 : UInt64).toNat = 16) (by decide)
    (by decide : Masks 16 0x0000FFFF0000FFFF)
  have h8 := blocks_halve (t := 8) h16 (rfl : (8 : UInt64).toNat = 8) (by decide)
    (by decide : Masks 8 0x00FF00FF00FF00FF)
  have h4 := blocks_halve (t := 4) h8 (rfl : (4 : UInt64).toNat = 4) (by decide)
    (by decide : Masks 4 0x0F0F0F0F0F0F0F0F)
  have h2 := blocks_halve (t := 2) h4 (rfl : (2 : UInt64).toNat = 2) (by decide)
    (by decide : Masks 2 0x3333333333333333)
  have h1 : Blocks 1 v.toNat (spread v) :=
    blocks_halve (t := 1) h2 (rfl : (1 : UInt64).toNat = 1) (by decide)
      (by decide : Masks 1 0x5555555555555555)
  have heven := h1 n 0 (by decide) (by omega)
  have hodd := h1 n 1 (by decide) (by omega)
  rw [Nat.mul_one, Nat.one_mul] at heven hodd
  exact ⟨by simpa using heven, by simpa using hodd⟩

private theorem testBit_interleave (n x y i : Nat) :
    (interleave n x y).testBit (2 * i) = (decide (i < n) && x.testBit i) ∧
      (interleave n x y).testBit (2 * i + 1) = (decide (i < n) && y.testBit i) := by
  induction n generalizing x y i with
  | zero => simp [interleave]
  | succ n ih =>
    have hhalf : interleave (n + 1) x y / 2 = 2 * interleave n (x / 2) (y / 2) + y % 2 := by
      rw [interleave]
      omega
    cases i with
    | zero =>
      have hx : interleave (n + 1) x y % 2 = x % 2 := by
        rw [interleave]
        omega
      rw [Nat.mul_zero, Nat.testBit_succ, hhalf]
      simp [Nat.testBit_zero, hx, Nat.add_mod]
    | succ i =>
      obtain ⟨heven, hodd⟩ := ih (x / 2) (y / 2) i
      have hquarter : interleave (n + 1) x y / 2 / 2 = interleave n (x / 2) (y / 2) := by omega
      simp only [Nat.mul_succ, Nat.testBit_add_one, hquarter, Nat.add_lt_add_iff_right] at hodd ⊢
      exact ⟨heven, hodd⟩

namespace Cell

/-- The code of a cell in a machine word: its column at the even places, its row at the odd ones. -/
def word (c : Cell) : UInt64 := spread (UInt32.ofNat c.x) ||| spread (UInt32.ofNat c.y) <<< 1

private theorem toNat_coordinate {level n : Nat} (hlevel : level ≤ World.finestLevel)
    (hn : n < 2 ^ level) : (UInt32.ofNat n).toNat = n := by
  apply UInt32.toNat_ofNat_of_lt'
  calc
    n < 2 ^ level := hn
    _ ≤ 2 ^ World.finestLevel := Nat.pow_le_pow_right (by decide) hlevel
    _ < UInt32.size := by decide

private theorem testBit_shiftLeft_one {v : UInt64} {n : Nat} (hn : n < 64) :
    (v <<< 1).toNat.testBit n = (decide (1 ≤ n) && v.toNat.testBit (n - 1)) := by
  rw [UInt64.toNat_shiftLeft, Nat.testBit_mod_two_pow, Nat.testBit_shiftLeft, decide_eq_true hn,
    Bool.true_and]
  rfl

private theorem testBit_word (c : Cell) {i : Nat} (hi : i < 32) :
    c.word.toNat.testBit (2 * i) = c.x.testBit i ∧
      c.word.toNat.testBit (2 * i + 1) = c.y.testBit i := by
  have hx := toNat_coordinate c.level_le c.x_lt
  have hy := toNat_coordinate c.level_le c.y_lt
  obtain ⟨heven, hodd⟩ := testBit_spread (UInt32.ofNat c.x) hi
  obtain ⟨heven', -⟩ := testBit_spread (UInt32.ofNat c.y) hi
  simp only [word, UInt64.toNat_or, Nat.testBit_or]
  rw [testBit_shiftLeft_one (by omega), testBit_shiftLeft_one (by omega), heven, hodd, hx,
    Nat.add_sub_cancel, heven', hy]
  refine ⟨?_, by simp⟩
  cases i with
  | zero => simp
  | succ i =>
    -- The bit before an even place is one of the zeros between the bits of the row.
    obtain ⟨-, hodd'⟩ := testBit_spread (UInt32.ofNat c.y) (n := i) (by omega)
    rw [Nat.mul_succ, show 2 * i + 2 - 1 = 2 * i + 1 from rfl, hodd', Bool.and_false, Bool.or_false]

private theorem testBit_code (c : Cell) (i : Nat) :
    c.code.testBit (2 * i) = c.x.testBit i ∧ c.code.testBit (2 * i + 1) = c.y.testBit i := by
  have hcut {n : Nat} (hn : n < 2 ^ c.level) :
      (decide (i < c.level) && n.testBit i) = n.testBit i := by
    by_cases hi : i < c.level
    · simp [hi]
    · have hbig : n < 2 ^ i := Nat.lt_of_lt_of_le hn (Nat.pow_le_pow_right (by decide) (by omega))
      simp [hi, Nat.testBit_lt_two_pow hbig]
  obtain ⟨heven, hodd⟩ := testBit_interleave c.level c.x c.y i
  rw [hcut c.x_lt] at heven
  rw [hcut c.y_lt] at hodd
  exact ⟨heven, hodd⟩

private theorem code_lt_two_pow (c : Cell) : c.code < 2 ^ 48 := by
  calc
    c.code < 4 ^ c.level := c.code_lt
    _ ≤ 4 ^ World.finestLevel := Nat.pow_le_pow_right (by decide) c.level_le
    _ = 2 ^ 48 := by decide

private theorem toNat_word (c : Cell) : c.word.toNat = c.code := by
  apply Nat.eq_of_testBit_eq
  intro n
  by_cases hn : n < 64
  · obtain ⟨heven, hodd⟩ := c.testBit_word (i := n / 2) (by omega)
    obtain ⟨heven', hodd'⟩ := c.testBit_code (n / 2)
    rcases Nat.mod_two_eq_zero_or_one n with hparity | hparity
    · rw [show n = 2 * (n / 2) by omega, heven, heven']
    · rw [show n = 2 * (n / 2) + 1 by omega, hodd, hodd']
  · have hpow : 2 ^ 64 ≤ 2 ^ n := Nat.pow_le_pow_right (by decide) (by omega)
    have hcode := c.code_lt_two_pow
    rw [Nat.testBit_lt_two_pow (Nat.lt_of_lt_of_le c.word.toNat_lt hpow),
      Nat.testBit_lt_two_pow (by omega)]

/-- The sum of two words, if it is one. -/
def add? (v w : UInt64) : Option UInt64 :=
  if v.toNat + w.toNat < UInt64.size then some (v + w) else none

/-- A word with its bits moved up, if all of them stay in it. -/
def shiftLeft? (v : UInt64) (n : Nat) : Option UInt64 :=
  if n < 64 ∧ v.toNat * 2 ^ n < UInt64.size then some (v <<< UInt64.ofNat n) else none

/-- The keys of a cell as two words: its code and the next one, moved up by two bits for each level
below it. -/
def keyWords? (c : Cell) : Option (UInt64 × UInt64) := do
  let below := 2 * (World.finestLevel - c.level)
  let next ← add? c.word 1
  some (← shiftLeft? c.word below, ← shiftLeft? next below)

private theorem add?_spec {v w : UInt64} (h : v.toNat + w.toNat < 2 ^ 64) :
    ∃ u, add? v w = some u ∧ u.toNat = v.toNat + w.toNat :=
  ⟨v + w, if_pos h, by rw [UInt64.toNat_add, Nat.mod_eq_of_lt h]⟩

private theorem shiftLeft?_spec {v : UInt64} {n : Nat} (hn : n < 64)
    (h : v.toNat * 2 ^ n < 2 ^ 64) : ∃ u, shiftLeft? v n = some u ∧ u.toNat = v.toNat * 2 ^ n := by
  refine ⟨v <<< UInt64.ofNat n, if_pos ⟨hn, h⟩, ?_⟩
  have hamount : (UInt64.ofNat n).toNat = n := UInt64.toNat_ofNat_of_lt' (Nat.lt_trans hn (by decide))
  rw [UInt64.toNat_shiftLeft, hamount, Nat.mod_eq_of_lt hn, Nat.shiftLeft_eq, Nat.mod_eq_of_lt h]

/-- Nothing is lost on the way to the keys of a cell, and they are its keys. -/
theorem keyWords?_eq (c : Cell) :
    ∃ lo hi, c.keyWords? = some (lo, hi) ∧ lo.toNat = c.keys.lo ∧ hi.toNat = c.keys.hi := by
  have hcode := c.code_lt_two_pow
  have hbelow : 2 * (World.finestLevel - c.level) < 64 := by
    have : World.finestLevel = 24 := rfl
    omega
  have hkeys : c.keys = ⟨c.code * 2 ^ (2 * (World.finestLevel - c.level)),
      (c.code + 1) * 2 ^ (2 * (World.finestLevel - c.level))⟩ := by
    rw [keys, Nat.pow_mul]
  have hhi : (c.code + 1) * 2 ^ (2 * (World.finestLevel - c.level)) ≤ 2 ^ 48 := by
    have hle := c.keys_hi_le
    rw [hkeys] at hle
    exact hle
  have hlo : c.code * 2 ^ (2 * (World.finestLevel - c.level)) ≤
      (c.code + 1) * 2 ^ (2 * (World.finestLevel - c.level)) :=
    Nat.mul_le_mul_right _ (Nat.le_succ _)
  rw [hkeys]
  obtain ⟨next, hnext, hnext'⟩ := add?_spec (v := c.word) (w := 1)
    (by rw [toNat_word, UInt64.toNat_one]; omega)
  rw [toNat_word, UInt64.toNat_one] at hnext'
  obtain ⟨lo, hlo', hlo''⟩ := shiftLeft?_spec (v := c.word) hbelow (by rw [toNat_word]; omega)
  obtain ⟨hi, hhi', hhi''⟩ := shiftLeft?_spec (v := next) hbelow (by rw [hnext']; omega)
  refine ⟨lo, hi, ?_, by rw [hlo'', toNat_word], by rw [hhi'', hnext']⟩
  simp only [keyWords?, hnext, Option.bind_eq_bind, Option.bind_some, hlo', hhi']

end Cell
end Gazetteer
