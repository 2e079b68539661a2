/-! Identifiers of registered partitions. -/
namespace Gazetteer

/-- One registration of a partition: each has a generation of its own. -/
structure PartitionId where
  name : String
  generation : Nat
deriving DecidableEq, Repr

namespace PartitionId

def text (id : PartitionId) : String := id.name ++ "#" ++ toString id.generation

/-- Identifiers are ordered by name, then by generation. -/
def le (a b : PartitionId) : Bool :=
  a.name < b.name || a.name = b.name && a.generation ≤ b.generation

end PartitionId
end Gazetteer
