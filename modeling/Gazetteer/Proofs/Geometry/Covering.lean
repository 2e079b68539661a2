import Gazetteer.Proofs.Geometry.KeyRanges
import Gazetteer.Proofs.Geometry.Squares

/-! What a covering holds: the keys of the cells of its level that meet the rectangle, in their one
canonical form. -/
namespace Gazetteer

-- Powers of natural numbers are those of core.
attribute [local instance (high)] instPowNat

open KeyRange (Covered)

namespace Cell

variable {α : Type} [Scalar α] (r : Rect α)

private theorem rangesMeeting_within (depth : Nat) (c : Cell) :
    KeyRange.Ascending (c.rangesMeeting r depth) ∧
      ∀ i ∈ c.rangesMeeting r depth, c.keys.lo ≤ i.lo ∧ i.hi ≤ c.keys.hi := by
  have hwhole (d : Cell) : KeyRange.Ascending [d.keys] ∧
      ∀ i ∈ [d.keys], d.keys.lo ≤ i.lo ∧ i.hi ≤ d.keys.hi :=
    ⟨⟨List.forall_mem_singleton.mpr d.keys_nonempty, List.pairwise_singleton ..⟩,
      List.forall_mem_singleton.mpr ⟨Nat.le_refl _, Nat.le_refl _⟩⟩
  have hnone (d : Cell) : KeyRange.Ascending [] ∧
      ∀ i ∈ ([] : List KeyRange), d.keys.lo ≤ i.lo ∧ i.hi ≤ d.keys.hi :=
    ⟨⟨nofun, .nil⟩, nofun⟩
  induction depth generalizing c with
  | zero =>
    rw [rangesMeeting]
    split
    · exact hwhole c
    · exact hnone c
  | succ depth ih =>
    rw [rangesMeeting]
    split
    · exact hnone c
    split
    · exact hwhole c
    · refine ⟨⟨?_, List.pairwise_flatMap.mpr ⟨fun d _ => (ih d).1.ordered, ?_⟩⟩, ?_⟩
      · intro i hi
        obtain ⟨d, _, hid⟩ := List.mem_flatMap.mp hi
        exact (ih d).1.nonempty i hid
      · apply c.pairwise_children.imp
        intro d e hde i hi j hj
        have := ((ih d).2 i hi).2
        have := ((ih e).2 j hj).1
        omega
      · intro i hi
        obtain ⟨d, hd, hid⟩ := List.mem_flatMap.mp hi
        have := keys_within_parent hd
        have := (ih d).2 i hid
        omega

variable [Nested α]

/-- The ranges found below a cell hold its keys that belong to cells that meet the rectangle. -/
theorem covered_rangesMeeting (depth : Nat) (c : Cell) (hdepth : c.level + depth ≤ World.finestLevel)
    (key : Nat) :
    Covered (c.rangesMeeting r depth) key ↔
      key ∈ c.keys ∧ ∃ d : Cell, d.level = c.level + depth ∧ key ∈ d.keys ∧ r.meets d.rect = true := by
  induction depth generalizing c with
  | zero =>
    rw [rangesMeeting]
    split
    · next hmeets =>
      simp only [Covered, List.mem_singleton, exists_eq_left]
      exact ⟨fun hkey => ⟨hkey, c, rfl, hkey, hmeets⟩, And.left⟩
    · next hmeets =>
      apply iff_of_false (KeyRange.covered_nil key)
      rintro ⟨hkey, d, hlevel, hd, hd'⟩
      cases eq_of_mem_keys hlevel hd hkey
      exact hmeets hd'
  | succ depth ih =>
    rw [rangesMeeting]
    split
    · next hmeets =>
      -- No cell below a cell that the rectangle does not meet is met.
      apply iff_of_false (KeyRange.covered_nil key)
      rintro ⟨hkey, d, hlevel, hd, hd'⟩
      have := Nested.meets_mono (Nested.contains_below hlevel hkey hd) hd'
      simp [this] at hmeets
    split
    · next hcontains =>
      -- Every cell below a cell inside the rectangle is met.
      simp only [Covered, List.mem_singleton, exists_eq_left]
      refine ⟨fun hkey => ⟨hkey, ?_⟩, And.left⟩
      obtain ⟨d, hlevel, hd⟩ := exists_mem_keys hdepth (lt_of_mem_keys hkey)
      have hbelow : (c.rect : Rect α).contains d.rect = true := Nested.contains_below hlevel hkey hd
      have hcontains := Nested.contains_trans hcontains hbelow
      exact ⟨d, hlevel, hd,
        Nested.meets_of_contains hcontains (Nested.ordered d).1 (Nested.ordered d).2⟩
    · have hchild {e : Cell} (he : e ∈ c.children) := (mem_children_iff.mp he).1
      constructor
      · rintro ⟨i, hi, hkey⟩
        obtain ⟨e, he, hie⟩ := List.mem_flatMap.mp hi
        have hlevel := hchild he
        obtain ⟨hke, d, hd⟩ := (ih e (by omega)).mp ⟨i, hie, hkey⟩
        exact ⟨mem_keys_of_mem_children he hke, d, by omega, hd.2⟩
      · rintro ⟨hkey, d, hlevel, hd⟩
        obtain ⟨e, he, hke⟩ := exists_child (by omega) hkey
        have := hchild he
        obtain ⟨i, hi, hik⟩ := (ih e (by omega)).mpr ⟨hke, d, by omega, hd⟩
        exact ⟨i, List.mem_flatMap.mpr ⟨e, he, hi⟩, hik⟩

end Cell

namespace Rect

variable {α : Type} [Scalar α]

/-- The ranges of a covering are in order, with gaps between them. -/
theorem canonical_cover (r : Rect α) (level : Nat) : KeyRange.Canonical (r.cover level) :=
  KeyRange.canonical_join (Cell.rangesMeeting_within r _ _).1

/-- A covering holds the keys of the cells of its level that meet the rectangle. -/
theorem covered_cover [Cell.Nested α] (r : Rect α) (level key : Nat) :
    Covered (r.cover level) key ↔
      ∃ c : Cell, c.level = min level World.finestLevel ∧ key ∈ c.keys ∧ r.meets c.rect = true := by
  have hroot : ∀ {key}, key < 4 ^ World.finestLevel → key ∈ Cell.root.keys := fun h =>
    ⟨Nat.zero_le _, h⟩
  have hdepth : Cell.root.level + min level World.finestLevel = min level World.finestLevel :=
    Nat.zero_add _
  rw [cover, KeyRange.covered_join (Cell.rangesMeeting_within r _ _).1,
    Cell.covered_rangesMeeting r _ _ (hdepth.trans_le (Nat.min_le_right ..)), hdepth]
  apply and_iff_right_of_imp
  rintro ⟨c, _, hkey, _⟩
  exact hroot (Cell.lt_of_mem_keys hkey)

/-- Rectangles that meet the same cells have the same covering. -/
theorem cover_congr [Cell.Nested α] {r s : Rect α}
    (h : ∀ c : Cell, r.meets c.rect = s.meets c.rect) (level : Nat) :
    r.cover level = s.cover level := by
  refine (canonical_cover r level).unique (canonical_cover s level) fun key => ?_
  rw [covered_cover, covered_cover]
  simp only [h]

/-- The covering of any rectangle at any level, corners in disorder or not numbers included. Each
key belongs to one cell of the level, and lies in a range of the covering exactly when the square of
this cell meets the rectangle. The ranges hold something, are ranges of keys, and leave gaps between
them: no other ranges like that hold the same keys. -/
theorem cover_exact (r : Rect Binary64) (level : Nat) :
    (∀ key < 2 ^ 48, ∃! c : Cell, c.level = min level World.finestLevel ∧ key ∈ c.keys) ∧
      (∀ key < 2 ^ 48, ∀ c : Cell, c.level = min level World.finestLevel → key ∈ c.keys →
        ((∃ i ∈ r.cover level, key ∈ i) ↔ r.meets c.rect = true)) ∧
      (∀ i ∈ r.cover level, i.lo < i.hi ∧ i.hi ≤ 2 ^ 48) ∧
      (r.cover level).Pairwise (fun i j => i.hi < j.lo) ∧
      ∀ is : List KeyRange, (∀ i ∈ is, i.lo < i.hi) → is.Pairwise (fun i j => i.hi < j.lo) →
        (∀ key, (∃ i ∈ is, key ∈ i) ↔ ∃ i ∈ r.cover level, key ∈ i) → is = r.cover level := by
  have hcanonical := r.canonical_cover level
  have hcover := r.covered_cover level
  refine ⟨?_, ?_, ?_, hcanonical.apart, ?_⟩
  · intro key hkey
    obtain ⟨c, hlevel, hc⟩ := Cell.exists_mem_keys (Nat.min_le_right level World.finestLevel) hkey
    exact ⟨c, ⟨hlevel, hc⟩, fun d hd => Cell.eq_of_mem_keys (hd.1.trans hlevel.symm) hd.2 hc⟩
  · intro key _ c hlevel hc
    refine (hcover key).trans ⟨?_, fun hmeets => ⟨c, hlevel, hc, hmeets⟩⟩
    rintro ⟨d, hlevel', hd, hmeets⟩
    cases Cell.eq_of_mem_keys (hlevel'.trans hlevel.symm) hd hc
    exact hmeets
  · intro i hi
    have hnonempty := hcanonical.nonempty i hi
    -- The last key of the range is a key of some cell.
    obtain ⟨c, _, hc, _⟩ := (hcover (i.hi - 1)).mp ⟨i, hi, by omega, by omega⟩
    have : i.hi - 1 < 2 ^ 48 := Cell.lt_of_mem_keys hc
    omega
  · intro is hnonempty hapart hkeys
    exact KeyRange.Canonical.unique ⟨hnonempty, hapart⟩ hcanonical hkeys

end Rect
end Gazetteer
