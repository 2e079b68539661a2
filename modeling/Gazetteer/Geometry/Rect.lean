import Gazetteer.Binary64

/-! Points and closed rectangles over any kind of number. Comparisons are taken as the number type
gives them, so a corner that is not a number lies in no rectangle and meets none. -/
namespace Gazetteer

/-- What geometry asks of a number. Binary64 is what runs; exact numbers share the definitions. -/
class Scalar (α : Type) extends Add α, Sub α, Mul α, Div α, Neg α, LE α, LT α, NatCast α where
  decLE : DecidableLE α
  decLT : DecidableLT α
  isFinite : α → Bool

instance Scalar.decidableLE {α : Type} [Scalar α] : DecidableLE α := Scalar.decLE

instance Scalar.decidableLT {α : Type} [Scalar α] : DecidableLT α := Scalar.decLT

instance : Scalar Binary64 where
  decLE := inferInstance
  decLT := inferInstance
  isFinite := Binary64.isFinite

structure Point (α : Type) where
  x : α
  y : α
deriving DecidableEq, Repr

/-- The points between two corners, border included. A rectangle read from a file may have its
corners the wrong way round, and then holds no point. -/
structure Rect (α : Type) where
  lo : Point α
  hi : Point α
deriving DecidableEq, Repr

namespace Rect

variable {α : Type} [Scalar α]

/-- The rectangle with two given opposite corners. On each axis the smaller coordinate comes first;
coordinates of which neither is smaller change places. -/
@[specialize] def ofCorners (a b : Point α) : Rect α :=
  let order (s t : α) : α × α := if s < t then (s, t) else (t, s)
  let xs := order a.x b.x
  let ys := order a.y b.y
  ⟨⟨xs.1, ys.1⟩, ⟨xs.2, ys.2⟩⟩

@[specialize] def width (r : Rect α) : α := r.hi.x - r.lo.x

@[specialize] def height (r : Rect α) : α := r.hi.y - r.lo.y

@[specialize] def center (r : Rect α) : Point α :=
  ⟨(r.hi.x + r.lo.x) / (2 : Nat), (r.hi.y + r.lo.y) / (2 : Nat)⟩

/-- The rectangle around the same centre, `factor` times as wide and as high. -/
@[specialize] def scaled (r : Rect α) (factor : α) : Rect α :=
  let c := r.center
  let halfWidth := r.width * factor / (2 : Nat)
  let halfHeight := r.height * factor / (2 : Nat)
  ofCorners ⟨c.x - halfWidth, c.y - halfHeight⟩ ⟨c.x + halfWidth, c.y + halfHeight⟩

/-- The two rectangles share a point. -/
@[specialize] def meets (r s : Rect α) : Bool :=
  r.lo.x ≤ s.hi.x && s.lo.x ≤ r.hi.x && r.lo.y ≤ s.hi.y && s.lo.y ≤ r.hi.y

/-- `s` lies in `r`. -/
@[specialize] def contains (r s : Rect α) : Bool :=
  r.lo.x ≤ s.lo.x && s.hi.x ≤ r.hi.x && r.lo.y ≤ s.lo.y && s.hi.y ≤ r.hi.y

@[specialize] def holds (r : Rect α) (p : Point α) : Bool :=
  r.lo.x ≤ p.x && p.x ≤ r.hi.x && r.lo.y ≤ p.y && p.y ≤ r.hi.y

def isFinite (r : Rect α) : Bool :=
  Scalar.isFinite r.lo.x && Scalar.isFinite r.lo.y &&
    Scalar.isFinite r.hi.x && Scalar.isFinite r.hi.y

def widen (bounds : α × α) (v : α) : α × α :=
  if bounds.2 < v then (bounds.1, v) else if v < bounds.1 then (v, bounds.2) else bounds

/-- The smallest rectangle that holds all the points. -/
def bounding : List (Point α) → Option (Rect α)
  | [] => none
  | p :: ps =>
    let xs := ps.foldl (fun b q => widen b q.x) (p.x, p.x)
    let ys := ps.foldl (fun b q => widen b q.y) (p.y, p.y)
    some (ofCorners ⟨xs.1, ys.1⟩ ⟨xs.2, ys.2⟩)

end Rect
end Gazetteer
