import Gazetteer.Geometry.Cell

/-! Coverings: the keys of all cells of a level that meet a rectangle, as ascending key ranges with
a gap between any two. -/
namespace Gazetteer

/-- The range `r` and those after it, each joined with the next while they touch. The ranges come in
ascending order. -/
def KeyRange.joinFrom (r : KeyRange) : List KeyRange → List KeyRange
  | [] => [r]
  | s :: rest =>
    if s.lo ≤ r.hi then joinFrom ⟨r.lo, max r.hi s.hi⟩ rest else r :: joinFrom s rest

/-- Joins ascending ranges that touch. -/
def KeyRange.join : List KeyRange → List KeyRange
  | [] => []
  | r :: rest => joinFrom r rest

variable {α : Type} [Scalar α]

/-- The key ranges of the cells `depth` levels below `c` that meet the rectangle, in ascending
order. A cell inside the rectangle stands for all the cells below it. -/
@[specialize] def Cell.rangesMeeting (r : Rect α) : Nat → Cell → List KeyRange
  | 0, c => if r.meets c.rect then [c.keys] else []
  | depth + 1, c =>
    let square : Rect α := c.rect
    if !r.meets square then []
    else if r.contains square then [c.keys]
    else c.children.flatMap (rangesMeeting r depth)

/-- The keys of the cells of a level that meet the rectangle, no finer than the finest level. The
ranges come in ascending order from `rangesMeeting`, so they need no sorting before they are
joined. -/
@[specialize] def Rect.cover (r : Rect α) (level : Nat) : List KeyRange :=
  KeyRange.join (Cell.root.rangesMeeting r (min level World.finestLevel))

end Gazetteer
