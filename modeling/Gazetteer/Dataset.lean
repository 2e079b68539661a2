import Gazetteer.Partition.Draft
import Gazetteer.Toml.Document
import Gazetteer.Toml.View

/-! Datasets: the partitions to build, with their points of interest. -/
namespace Gazetteer

open Toml

/-- A point of interest; its language is the default one and its scale the coarsest, unless set. -/
def Feature.ofToml? (v : Value) : Option Feature := do
  match ← v.fields? ["x", "y", "name", "lang", "min_scale"] with
  | [x, y, name, language, minScale] =>
    let f := Feature.poi ⟨← required Value.real? x, ← required Value.real? y⟩
      (← required Value.text? name) (← optional .default Value.language? language)
    some { f with minScale := ← optional 0 Value.uint8? minScale }
  | _ => none

/-- A partition to build; what is not set is as in an empty draft. -/
def Draft.ofToml? (v : Value) : Option Draft := do
  match ← v.fields? ["name", "version", "scale_range", "poi"] with
  | [name, version, scales, pois] =>
    let d : Draft := { name := ← required Value.text? name }
    let scaleRange? (v : Value) : Option ScaleRange :=
      (v.pair? Value.uint8? Value.uint8?).map fun s => ⟨s.1, s.2⟩
    some { d with
      version := ← optional d.version Value.uint64? version
      scales := ← optional d.scales scaleRange? scales
      features := ← optional [] (Value.list? Feature.ofToml?) pois }
  | _ => none

namespace Dataset

def parse (s : String) : Except PartitionError (List Draft) :=
  let drafts? := do
    match ← (← parse? s).fields? ["mwm"] with
    | [drafts] => optional [] (Value.list? Draft.ofToml?) drafts
    | _ => none
  drafts?.elim (.error .dataset) .ok

/-- Builds the partitions in their order; the first fault found is the fault of all. -/
def build (drafts : List Draft) : Except PartitionError (List Partition) := drafts.mapM Draft.finish

end Dataset
end Gazetteer
