import Gazetteer.Geometry.Rect

/-! The extent of the world and its scales. The world is the square from -180 to 180 on both axes;
a scale is a level of detail, and finer scales are larger numbers. -/
namespace Gazetteer

/-- A level of detail. -/
abbrev Scale := UInt8

/-- A partition's coarsest and finest scale. -/
structure ScaleRange where
  coarsest : Scale
  finest : Scale
deriving DecidableEq, Repr

/-- Brings a scale into the range. The finest scale wins if the range is the wrong way round. -/
def ScaleRange.clamp (r : ScaleRange) (s : Scale) : Scale :=
  let raised := if s < r.coarsest then r.coarsest else s
  if r.finest < raised then r.finest else raised

namespace World

/-- The finest level of the quadtree, at which features are kept. -/
def finestLevel : Nat := 24

/-- The finest scale a query asks for unless it says otherwise. -/
def finestScale : Scale := 17

/-- The level of the cells that cover a viewport at a scale. -/
def levelOf (s : Scale) : Nat := min s.toNat finestLevel

variable {α : Type} [Scalar α]

@[specialize] def lower : α := -((180 : Nat) : α)

@[specialize] def upper : α := ((180 : Nat) : α)

@[specialize] def side : α := ((360 : Nat) : α)

def extent : Rect α := ⟨⟨lower, lower⟩, ⟨upper, upper⟩⟩

end World
end Gazetteer
