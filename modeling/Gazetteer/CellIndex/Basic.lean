import Gazetteer.Ascending
import Gazetteer.Feature
import Gazetteer.Geometry.Cell

/-! The place index: features by the keys of their cells, in layers by the coarsest scale at which
they show. -/
namespace Gazetteer

/-- A feature at a key. -/
structure CellIndex.Entry where
  key : UInt64
  feature : FeatureId
deriving DecidableEq, Repr

/-- Entries are ordered by key, then by feature. -/
instance : LT CellIndex.Entry :=
  ⟨fun a b => a.key < b.key ∨ a.key = b.key ∧ a.feature < b.feature⟩

instance : DecidableLT CellIndex.Entry := fun a b =>
  inferInstanceAs (Decidable (a.key < b.key ∨ a.key = b.key ∧ a.feature < b.feature))

structure CellIndex.Layer where
  scale : Scale
  /-- In ascending order. -/
  entries : List CellIndex.Entry
deriving DecidableEq, Repr

structure CellIndex where
  /-- In ascending order of their scales. -/
  layers : List CellIndex.Layer := []
deriving DecidableEq, Repr

namespace CellIndex

def empty : CellIndex := {}

def insertEntry (scale : Scale) (e : Entry) : List Layer → List Layer
  | [] => [⟨scale, [e]⟩]
  | l :: ls =>
    if scale < l.scale then ⟨scale, [e]⟩ :: l :: ls
    else if l.scale < scale then l :: insertEntry scale e ls
    else ⟨scale, Ascending.insert e l.entries⟩ :: ls

/-- Adds a feature at a key, to show from a scale on. -/
def insert (index : CellIndex) (key : UInt64) (scale : Scale) (feature : FeatureId) : CellIndex :=
  ⟨insertEntry scale ⟨key, feature⟩ index.layers⟩

/-- The features that show at a scale with a key in the range, by layer, key and number. -/
def lookup (index : CellIndex) (keys : KeyRange) (scale : Scale) : List FeatureId :=
  (index.layers.takeWhile (·.scale ≤ scale)).flatMap fun l =>
    ((l.entries.dropWhile (·.key.toNat < keys.lo)).takeWhile (·.key.toNat < keys.hi)).map (·.feature)

def size (index : CellIndex) : Nat := (index.layers.flatMap (·.entries)).length

/-- Why layers are no index. -/
inductive Fault where
  | layersOutOfOrder
  | entriesOutOfOrder (scale : Scale)
deriving DecidableEq, Repr

def Fault.reason : Fault → String
  | layersOutOfOrder => "scale buckets out of order"
  | entriesOutOfOrder scale => s!"entries of scale {scale.toNat} out of order"

/-- The index, if its layers and their entries are in order; an entry may be there twice. -/
def validate (index : CellIndex) : Except Fault CellIndex :=
  if !inOrder (fun a b => decide (a.scale < b.scale)) index.layers then .error .layersOutOfOrder
  else
    match index.layers.find? fun l => !inOrder (fun a b => !decide (b < a)) l.entries with
    | some l => .error (.entriesOutOfOrder l.scale)
    | none => .ok index

end CellIndex
end Gazetteer
