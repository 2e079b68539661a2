import Gazetteer.Partition.Format
import Gazetteer.Text.Word

/-! Building partitions from features. -/
namespace Gazetteer

/-- A partition in the making. -/
structure Draft where
  name : String
  version : UInt64 := 1
  /-- Coarse unless set otherwise: at scale 6 a cell is 5.625 units wide, and whole cells are
  found. -/
  scales : ScaleRange := ⟨0, 6⟩
  features : List Feature := []

/-- The words of the feature's names with their languages, in the order of the names. -/
def Feature.words (f : Feature) : Except PartitionError (List (Language × String)) := do
  let named ← f.names.mapM fun n =>
    match Language.ofIndex? n.language with
    | some l => .ok ((Text.words n.text).map (l, ·))
    | none => .error (.unknownLanguage n.language)
  return named.flatten

namespace Draft

/-- Adds a feature; its number is the count of those before it. -/
def add (d : Draft) (f : Feature) : Draft := { d with features := d.features ++ [f] }

def numbered (d : Draft) : List (Feature × FeatureId) :=
  d.features.zipIdx.map fun f => (f.1, UInt32.ofNat f.2)

def textIndex (d : Draft) : Except PartitionError Trie :=
  d.numbered.foldlM (fun t f => do
    return (← f.1.words).foldl (fun t w => t.insert w.1 w.2 f.2) t) Trie.empty

/-- The scale of the layer that a feature goes into. -/
def layerOf (d : Draft) (f : Feature) : Scale := d.scales.clamp f.minScale

def placeIndex (d : Draft) : CellIndex :=
  d.numbered.foldl (fun index f =>
    index.insert (UInt64.ofNat (Cell.keyOf f.1.point)) (d.layerOf f.1) f.2) CellIndex.empty

/-- Builds the partition. A feature outside the world is the first fault to be found, then the lack
of any feature, then a name in an unknown language. -/
def finish (d : Draft) : Except PartitionError Partition :=
  match d.features.zipIdx.find? fun f => !World.extent.holds f.1.point with
  | some (f, i) => .error (.outOfWorld d.name i f.point)
  | none =>
    match Rect.bounding (d.features.map (·.point)) with
    | none => .error (.emptyPartition d.name)
    | some bounds => do
      let text ← d.textIndex
      let p : Partition := ⟨d.name, ⟨Header.currentFormat, d.version, bounds, d.scales⟩, []⟩
      return ((p.setSection Partition.textTag text.encode).setSection Partition.placeTag
        d.placeIndex.encode).setSection Partition.featuresTag (Feature.encodeAll d.features)

end Draft
end Gazetteer
