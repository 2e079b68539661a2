import Gazetteer.Geometry.World

/-! Quadtree cells. A cell of level `l` is a square of the `2 ^ l` by `2 ^ l` grid over the world.
Its code interleaves the bits of its column and row, so that the finest-level cells below it have
consecutive codes: its keys. -/
namespace Gazetteer

-- Powers of natural numbers are those of core.
attribute [local instance (high)] instPowNat

/-- A half-open range of keys. -/
structure KeyRange where
  lo : Nat
  hi : Nat
deriving DecidableEq, Repr

def KeyRange.mem (r : KeyRange) (key : Nat) : Prop := r.lo ≤ key ∧ key < r.hi

instance : Membership Nat KeyRange := ⟨KeyRange.mem⟩

instance (r : KeyRange) (key : Nat) : Decidable (key ∈ r) :=
  inferInstanceAs (Decidable (r.lo ≤ key ∧ key < r.hi))

/-- The number whose bits are those of `x` and `y` in turn, `x` at the even places; the lowest `n`
bits of each are taken. -/
def interleave : Nat → Nat → Nat → Nat
  | 0, _, _ => 0
  | n + 1, x, y => 4 * interleave n (x / 2) (y / 2) + 2 * (y % 2) + x % 2

/-- A square of the grid of its level. -/
structure Cell where
  level : Nat
  x : Nat
  y : Nat
  level_le : level ≤ World.finestLevel
  x_lt : x < 2 ^ level
  y_lt : y < 2 ^ level
deriving DecidableEq, Repr

namespace Cell

/-- The single cell of level 0: the world. -/
def root : Cell := ⟨0, 0, 0, by decide, by decide, by decide⟩

/-- The cell at a place in the grid of a level, if there is one. -/
def at? (level x y : Nat) : Option Cell :=
  if h : level ≤ World.finestLevel ∧ x < 2 ^ level ∧ y < 2 ^ level then
    some ⟨level, x, y, h.1, h.2.1, h.2.2⟩
  else none

/-- The four cells of the next level, in the order of their codes; none at the finest level. -/
def children (c : Cell) : List Cell :=
  if h : c.level < World.finestLevel then
    let child (dx dy : Nat) (hx : dx < 2) (hy : dy < 2) : Cell :=
      ⟨c.level + 1, 2 * c.x + dx, 2 * c.y + dy, h,
        by have := c.x_lt; rw [Nat.pow_succ]; omega, by have := c.y_lt; rw [Nat.pow_succ]; omega⟩
    [child 0 0 (by decide) (by decide), child 1 0 (by decide) (by decide),
      child 0 1 (by decide) (by decide), child 1 1 (by decide) (by decide)]
  else []

/-- The cell of the level above that holds this one; none above the world. -/
def parent? (c : Cell) : Option Cell :=
  match h : c.level with
  | 0 => none
  | l + 1 =>
    some ⟨l, c.x / 2, c.y / 2, by have := c.level_le; omega,
      by have := c.x_lt; rw [h, Nat.pow_succ] at this; omega,
      by have := c.y_lt; rw [h, Nat.pow_succ] at this; omega⟩

/-- The cell's number within its level. -/
def code (c : Cell) : Nat := interleave c.level c.x c.y

/-- The keys of the finest cells below this one. -/
def keys (c : Cell) : KeyRange :=
  let span := 4 ^ (World.finestLevel - c.level)
  ⟨c.code * span, (c.code + 1) * span⟩

/-- Cells are ordered by level, then by column, then by row. -/
def compare (c d : Cell) : Ordering :=
  (Ord.compare c.level d.level).then ((Ord.compare c.x d.x).then (Ord.compare c.y d.y))

section
variable {α : Type} [Scalar α]

@[specialize] def side (c : Cell) : α := World.side / ((2 ^ c.level : Nat) : α)

/-- The square that the cell covers. Its corners are exact: they are multiples of `45 / 2 ^ 21`. -/
@[specialize] def rect (c : Cell) : Rect α :=
  let s : α := c.side
  let x : α := (c.x : α) * s + World.lower
  let y : α := (c.y : α) * s + World.lower
  ⟨⟨x, y⟩, ⟨x + s, y + s⟩⟩

end

/-- The column (or row) of a coordinate in the grid of a level. Coordinates outside the world fall
into the outermost cells, and not-a-number into the first. -/
def index (level : Nat) (v : Binary64) : Nat :=
  min ((v - World.lower) / World.side * ((2 ^ level : Nat) : Binary64)).truncate (2 ^ level - 1)

/-- Whatever the coordinate, its column is one of the grid. -/
theorem index_lt (level : Nat) (v : Binary64) : index level v < 2 ^ level := by
  have : 0 < 2 ^ level := Nat.two_pow_pos level
  unfold index
  omega

/-- The cell of a level that holds the point, no finer than the finest level. -/
def ofPoint (p : Point Binary64) (level : Nat) : Cell :=
  let l := min level World.finestLevel
  ⟨l, index l p.x, index l p.y, Nat.min_le_right .., index_lt .., index_lt ..⟩

/-- The key of the finest cell that holds the point. -/
def keyOf (p : Point Binary64) : Nat := (ofPoint p World.finestLevel).code

end Cell
end Gazetteer
