import Gazetteer.Binary64

/-! Writing MessagePack. Each kind of value has one form here: integers and lengths take the fewest
bytes, and records are maps from field names to values. -/
namespace Gazetteer

abbrev Bytes := List UInt8

namespace MessagePack

-- Powers of natural numbers are those of core.
attribute [local instance (high)] instPowNat

/-- The lowest `count` bytes of a number, the highest first. -/
def bigEndian : (count n : Nat) → Bytes
  | 0, _ => []
  | count + 1, n => UInt8.ofNat (n / 256 ^ count) :: bigEndian count n

/-- A marker byte and a number of `count` bytes. -/
def marked (marker : UInt8) (count n : Nat) : Bytes := marker :: bigEndian count n

/-- A length below `short` within the marker, and longer ones in as few bytes as there are markers
for. -/
def header (base : Nat) (short : Nat) (markers : List (UInt8 × Nat)) (length : Nat) : Bytes :=
  if length < short then [UInt8.ofNat (base + length)]
  else match markers.find? fun m => length < 256 ^ m.2 with
    | some (marker, count) => marked marker count length
    | none => []

def ofNat (n : Nat) : Bytes :=
  header 0 0x80 [(0xcc, 1), (0xcd, 2), (0xce, 4), (0xcf, 8)] n

def ofReal (x : Binary64) : Bytes := marked 0xcb 8 x.bits.toNat

def ofString (s : String) : Bytes :=
  let utf8 := s.toUTF8.data.toList
  header 0xa0 32 [(0xd9, 1), (0xda, 2), (0xdb, 4)] utf8.length ++ utf8

def ofItems (items : List Bytes) : Bytes :=
  header 0x90 16 [(0xdc, 2), (0xdd, 4)] items.length ++ items.flatten

def ofEntries (entries : List (Bytes × Bytes)) : Bytes :=
  header 0x80 16 [(0xde, 2), (0xdf, 4)] entries.length ++ entries.flatMap fun e => e.1 ++ e.2

def ofFields (fields : List (String × Bytes)) : Bytes :=
  ofEntries (fields.map fun f => (ofString f.1, f.2))

/-- Bytes as an array of integers. -/
def ofBytes (bytes : Bytes) : Bytes := ofItems (bytes.map fun b => ofNat b.toNat)

end MessagePack
end Gazetteer
