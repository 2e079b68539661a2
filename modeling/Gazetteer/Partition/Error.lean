import Gazetteer.CellIndex.Basic
import Gazetteer.Decimal.Text
import Gazetteer.MessagePack.Malformed
import Gazetteer.Partition.Basic
import Gazetteer.Trie.Validation

/-! What can be wrong with partitions and datasets. -/
namespace Gazetteer

inductive PartitionError where
  /-- A file cannot be read or written. -/
  | file
  /-- The bytes of a file are no partition. -/
  | unreadable
  /-- A text is no dataset. -/
  | dataset
  | textIndex (why : Malformed Trie.Fault)
  | placeIndex (why : Malformed CellIndex.Fault)
  /-- The features section cannot be read. -/
  | features
  | missingSection (tag : String)
  | unsupportedFormat (found : UInt32)
  | emptyPartition (name : String)
  /-- A feature lies where no viewport can find it. -/
  | outOfWorld (name : String) (feature : Nat) (point : Point Binary64)
  | unknownLanguage (index : UInt8)
deriving DecidableEq, Repr

namespace PartitionError

private def malformed (tag reason : String) : String := s!"Malformed '{tag}' section: {reason}"

def message : PartitionError → String
  | file => "I/O error"
  | unreadable => "Decode error"
  | dataset => "Dataset error"
  | textIndex why => malformed Partition.textTag (why.reason Trie.Fault.reason)
  | placeIndex why => malformed Partition.placeTag (why.reason CellIndex.Fault.reason)
  | features => malformed Partition.featuresTag ""
  | missingSection tag => s!"Missing '{tag}' section"
  | unsupportedFormat found =>
    s!"Unsupported container format version {found.toNat} (expected {Header.currentFormat.toNat})"
  | emptyPartition name => s!"Partition '{name}' has no features"
  | outOfWorld name feature point =>
    s!"Feature {feature} of partition '{name}' at ("
      ++ Decimal.text .plain point.x ++ ", " ++ Decimal.text .plain point.y
      ++ ") is outside the world"
  | unknownLanguage index => s!"Unknown language: {index.toNat}"

end PartitionError
end Gazetteer
