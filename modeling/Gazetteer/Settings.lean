import Gazetteer.Geometry.World
import Gazetteer.Search.Limits
import Gazetteer.Toml.Document
import Gazetteer.Toml.View

/-! Settings of a search, as a file holds them. -/
namespace Gazetteer

open Toml

structure Settings where
  /-- The languages of the names that count; if none is given, all count. -/
  languages : List Language := []
  scale : Option Scale := none
  limits : Limits Binary64 := {}
deriving DecidableEq, Repr

def Limits.ofToml? (v : Value) : Option (Limits Binary64) := do
  match ← v.fields? ["min_num_features", "max_viewport_scale"] with
  | [enough, ceiling] =>
    some ⟨← optional none (·.uint64?.map some) enough, ← optional none (·.real?.map some) ceiling⟩
  | _ => none

def Settings.parse? (s : String) : Option Settings := do
  match ← (← Toml.parse? s).fields? ["langs", "scale", "limits"] with
  | [languages, scale, limits] =>
    some ⟨← optional [] (Value.list? Value.language?) languages,
      ← optional none (·.uint8?.map some) scale, ← optional {} Limits.ofToml? limits⟩
  | _ => none

end Gazetteer
