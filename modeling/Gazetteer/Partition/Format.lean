import Gazetteer.CellIndex.Format
import Gazetteer.Partition.Error
import Gazetteer.Trie.Format

/-! The stored form of partitions and features, and what their sections hold. -/
namespace Gazetteer

open MessagePack

namespace Point

def encode (p : Point Binary64) : Bytes := ofFields [("x", ofReal p.x), ("y", ofReal p.y)]

def ofValue? (v : Value) : Option (Point Binary64) :=
  match v.fields? ["x", "y"] with
  | some [x, y] => do some ⟨← x.real?, ← y.real?⟩
  | _ => none

end Point

namespace Rect

def encode (r : Rect Binary64) : Bytes := ofFields [("min", r.lo.encode), ("max", r.hi.encode)]

/-- Corners are taken as they are, in whatever order. -/
def ofValue? (v : Value) : Option (Rect Binary64) :=
  match v.fields? ["min", "max"] with
  | some [lo, hi] => do some ⟨← Point.ofValue? lo, ← Point.ofValue? hi⟩
  | _ => none

end Rect

namespace Feature

def encode (f : Feature) : Bytes :=
  ofFields [
    ("point", f.point.encode),
    ("names", ofItems (f.names.map fun n => ofItems [ofNat n.language.toNat, ofString n.text])),
    ("min_scale", ofNat f.minScale.toNat)]

def ofValue? (v : Value) : Option Feature :=
  match v.fields? ["point", "names", "min_scale"] with
  | some [point, names, minScale] => do
    let names ← names.list? (Value.pair? Value.uint8? Value.string?)
    some ⟨← Point.ofValue? point, names.map fun n => ⟨n.1, n.2⟩, ← minScale.uint8?⟩
  | _ => none

def encodeAll (fs : List Feature) : Bytes := ofItems (fs.map encode)

end Feature

namespace Header

def encode (h : Header) : Bytes :=
  ofFields [
    ("format_version", ofNat h.formatVersion.toNat),
    ("version", ofNat h.version.toNat),
    ("bounds", h.bounds.encode),
    ("scale_range", ofItems [ofNat h.scales.coarsest.toNat, ofNat h.scales.finest.toNat])]

def ofValue? (v : Value) : Option Header :=
  match v.fields? ["format_version", "version", "bounds", "scale_range"] with
  | some [format, version, bounds, scales] => do
    let scales ← scales.pair? Value.uint8? Value.uint8?
    some ⟨← format.uint32?, ← version.uint64?, ← Rect.ofValue? bounds, ⟨scales.1, scales.2⟩⟩
  | _ => none

end Header

namespace Partition

def encode (p : Partition) : Bytes :=
  ofFields [
    ("name", ofString p.name),
    ("header", p.header.encode),
    ("sections", ofEntries (p.sections.map fun s => (ofString s.1, ofBytes s.2)))]

/-- The sections that a map stands for; of two with one tag the later counts. -/
def sectionsOfValue? : Value → Option (List (String × Bytes))
  | .map entries => do
    let sections ← entries.mapM fun e => do some (← e.1.string?, ← e.2.list? Value.uint8?)
    some (sections.foldl (fun done s => Ascending.insertPair s.1 s.2 done) [])
  | _ => none

def ofValue? (v : Value) : Option Partition :=
  match v.fields? ["name", "header", "sections"] with
  | some [name, header, sections] => do
    some ⟨← name.string?, ← Header.ofValue? header, ← sectionsOfValue? sections⟩
  | _ => none

/-- Reads a stored partition of the current format. -/
def decode (bytes : Bytes) : Except PartitionError Partition :=
  match read? bytes >>= ofValue? with
  | none => .error .unreadable
  | some p =>
    if p.header.formatVersion = Header.currentFormat then .ok p
    else .error (.unsupportedFormat p.header.formatVersion)

/-- Reads the partition in a file, given the bytes of the file if it can be read at all. -/
def ofFile (file : Option Bytes) : Except PartitionError Partition :=
  file.elim (.error .file) decode

private def need (p : Partition) (tag : String) : Except PartitionError Bytes :=
  (p.section? tag).elim (.error (.missingSection tag)) .ok

def textIndex (p : Partition) : Except PartitionError Trie := do
  (Trie.decode (← p.need textTag)).mapError .textIndex

def placeIndex (p : Partition) : Except PartitionError CellIndex := do
  (CellIndex.decode (← p.need placeTag)).mapError .placeIndex

def features (p : Partition) : Except PartitionError (List Feature) := do
  match read? (← p.need featuresTag) >>= Value.list? Feature.ofValue? with
  | none => .error .features
  | some fs => .ok fs

end Partition
end Gazetteer
