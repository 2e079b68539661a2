import Gazetteer.Search.Expansion
import Gazetteer.Search.Target

/-! Searches over a catalog: every partition is searched in a growing viewport, and reported at most
once, when it is covered or when the search ends. -/
namespace Gazetteer

/-- Where the partitions of a search come from. -/
structure Source where
  ids : List PartitionId
  handle : PartitionId → Handle

def Catalog.source (c : Catalog) : Source := ⟨c.ids, c.byId⟩

/-- Where a search is in its life. A run holds the search until it ends, and leaves it done, so
nothing can look at a search that is running, and there is no phase for it. -/
inductive Phase where
  /-- Nothing is searched for yet. -/
  | blank
  | ready
  /-- Every partition is reported or given up. -/
  | done
deriving DecidableEq, Repr

structure Search where
  viewport : Rect Binary64
  query : Query
  limits : Limits Binary64
  targets : List Target
  phase : Phase

namespace Search

def blank : Search := ⟨.ofCorners ⟨0, 0⟩ ⟨0, 0⟩, .empty, {}, [], .blank⟩

/-- A search over the partitions of a source that are there and have both indexes. -/
def start (source : Source) (viewport : Rect Binary64) (query : Query) (limits : Limits Binary64) :
    Search :=
  ⟨viewport, query, limits, source.ids.filterMap fun id => Target.ofHandle? (source.handle id),
    .ready⟩

/-- Every partition is covered, or cannot be searched. -/
def coversAll (targets : List Target) : Bool := targets.all fun t => t.isCovered || t.isFailed

def count (targets : List Target) : Nat := (targets.flatMap (·.found.both)).length

/-- Does the same with every target in turn: all events, and the targets afterwards. -/
def each (f : Target → List Event × Target) (targets : List Target) : List Event × List Target :=
  (targets.flatMap fun t => (f t).1, targets.map fun t => (f t).2)

/-- A viewport is searched in every target. -/
def survey (q : Query) : Survey Binary64 (List Target) Event where
  visit := fun viewport => each (·.visit q viewport)
  covered := coversAll
  found := count

def expansion (s : Search) : List (Round Binary64 (List Target) Event) × Ending :=
  expand (survey s.query) s.limits s.viewport s.targets

def isFinished (s : Search) : Bool := s.targets.all (·.isFinished)

/-- Runs the search to its end: the events in order, and the search afterwards. If every
target is finished already, there is nothing to tell. -/
def run (s : Search) : List Event × Search :=
  if s.isFinished then ([], { s with phase := .done })
  else
    let rounds := s.expansion.1
    let (last, targets) := each (·.conclude) (stateAfter s.targets rounds)
    (rounds.flatMap (·.events) ++ last, { s with targets, phase := .done })

end Search
end Gazetteer
