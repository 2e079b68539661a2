/-! Limits of a search. -/
namespace Gazetteer

/-- When to stop before everything is covered. A limit that is not set does not bind. -/
structure Limits (α : Type) where
  /-- As many features are enough. -/
  enough : Option UInt64 := none
  /-- The viewport grows to this factor of its size and no further. -/
  ceiling : Option α := none
deriving DecidableEq, Repr

end Gazetteer
