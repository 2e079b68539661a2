import Gazetteer.Ascending
import Gazetteer.Geometry.World
import Gazetteer.MessagePack.Writer

/-! Partitions: a header and named sections of bytes. -/
namespace Gazetteer

/-- What is known of a partition without reading its sections. -/
structure Header where
  formatVersion : UInt32
  /-- The version of the data: newer ones replace older ones. -/
  version : UInt64
  /-- The rectangle around all features. -/
  bounds : Rect Binary64
  /-- The scales that the place index is made for. -/
  scales : ScaleRange
deriving DecidableEq, Repr

/-- The format version that is written and read. -/
def Header.currentFormat : UInt32 := 1

structure Partition where
  name : String
  header : Header
  /-- The sections by their tags, in ascending order of the tags. -/
  sections : List (String × Bytes) := []
deriving DecidableEq, Repr

namespace Partition

def textTag : String := "search"

def placeTag : String := "idx"

def featuresTag : String := "dat"

def section? (p : Partition) (tag : String) : Option Bytes := p.sections.lookup tag

def hasSection (p : Partition) (tag : String) : Bool := (p.section? tag).isSome

def setSection (p : Partition) (tag : String) (bytes : Bytes) : Partition :=
  { p with sections := Ascending.insertPair tag bytes p.sections }

def removeSection (p : Partition) (tag : String) : Partition :=
  { p with sections := p.sections.filter (·.1 ≠ tag) }

/-- The partitions hold the same data. Bounds are compared as numbers, so none that is not a number
is the same as any. -/
def same (p q : Partition) : Bool :=
  p.name = q.name && p.header.formatVersion = q.header.formatVersion
    && p.header.version = q.header.version
    && p.header.bounds.lo.x.same q.header.bounds.lo.x && p.header.bounds.lo.y.same q.header.bounds.lo.y
    && p.header.bounds.hi.x.same q.header.bounds.hi.x && p.header.bounds.hi.y.same q.header.bounds.hi.y
    && p.header.scales = q.header.scales && p.sections = q.sections

end Partition
end Gazetteer
