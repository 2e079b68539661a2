import Gazetteer.Catalog
import Gazetteer.Query.Matching

/-! Partitions under search. A partition is opened when the first viewport meets it: its text
matches and its place index are kept from then on, and each further viewport only looks up
places. -/
namespace Gazetteer

/-- Why a partition cannot be searched. -/
inductive Failure where
  | text (error : PartitionError)
  | place (error : PartitionError)
deriving DecidableEq, Repr

def Failure.error : Failure → PartitionError
  | text e => e
  | place e => e

def Failure.message (id : PartitionId) (why : Failure) : String :=
  let side := match why with
    | text _ => "Text"
    | place _ => "Spatial"
  side ++ " index of mwm " ++ id.text ++ " is unusable: " ++ why.error.message

/-- What a search tells about a partition. -/
inductive Event where
  | reported (id : PartitionId) (features : List FeatureId)
  | failed (id : PartitionId) (why : Failure)
deriving DecidableEq, Repr

def Event.id : Event → PartitionId
  | reported id _ => id
  | failed id _ => id

/-- What is found in a partition, each in ascending order. -/
structure Matches where
  text : List FeatureId := []
  /-- The features by the last viewport. -/
  place : List FeatureId := []
deriving DecidableEq, Repr

def Matches.both (m : Matches) : List FeatureId := Ascending.inter m.text m.place

/-- How far the search of a partition has come. -/
inductive Progress where
  /-- No viewport has met the partition yet. -/
  | pending
  | met (found : Matches) (index : CellIndex)
  /-- A viewport contained the whole partition. -/
  | covered (found : Matches)
  /-- The search ended before the partition was covered. -/
  | closed (found : Matches)
  | failed
deriving DecidableEq, Repr

/-- A registered partition under search. -/
structure Target where
  registration : Registration
  progress : Progress := .pending
deriving DecidableEq, Repr

namespace Target

def id (t : Target) : PartitionId := t.registration.id

def partition (t : Target) : Partition := t.registration.partition

def bounds (t : Target) : Rect Binary64 := t.partition.header.bounds

def isCovered (t : Target) : Bool := t.progress matches .covered _

def isFailed (t : Target) : Bool := t.progress matches .failed

/-- Some viewport has met the partition, or the search of it is over. -/
def isTouched (t : Target) : Bool := !(t.progress matches .pending)

/-- The partition will not be searched or reported again. -/
def isFinished (t : Target) : Bool :=
  t.progress matches .covered _ || t.progress matches .closed _ || t.progress matches .failed

def found (t : Target) : Matches :=
  match t.progress with
  | .met m _ => m
  | .covered m => m
  | .closed m => m
  | .pending => {}
  | .failed => {}

/-- The target of a handle, unless it is dead or lacks one of the two indexes. -/
def ofHandle? (h : Handle) : Option Target :=
  match h with
  | .dead _ => none
  | .live r =>
    if r.partition.hasSection Partition.textTag && r.partition.hasSection Partition.placeTag then
      some ⟨r, .pending⟩
    else none

/-- The text matches and the place index of the partition. -/
def opened (t : Target) (q : Query) : Except Failure (List FeatureId × CellIndex) := do
  let trie ← t.partition.textIndex.mapError .text
  let index ← t.partition.placeIndex.mapError .place
  return (q.textMatches trie, index)

def located (t : Target) (q : Query) (viewport : Rect Binary64) (text : List FeatureId)
    (index : CellIndex) : Target :=
  let place := Ascending.ofList (q.placeMatches index t.partition.header.scales viewport)
  { t with progress := .met ⟨text, place⟩ index }

/-- Searches the partition for a viewport that meets it. A finished target stays as it is. -/
def retrieve (t : Target) (q : Query) (viewport : Rect Binary64) : Except Failure Target :=
  match t.progress with
  | .pending => (t.opened q).map fun (text, index) => t.located q viewport text index
  | .met m index => .ok (t.located q viewport m.text index)
  | _ => .ok t

/-- Ends the search of a partition that a viewport has met and contains. -/
def cover (t : Target) : Target :=
  match t.progress with
  | .met m _ => { t with progress := .covered m }
  | _ => t

/-- Ends the search of a partition that was not covered. -/
def close (t : Target) : Target :=
  if t.isFinished then t else { t with progress := .closed t.found }

def report (t : Target) : List Event :=
  if t.found.both.isEmpty then [] else [.reported t.id t.found.both]

/-- Searches a viewport in the partition, if they meet: the events, and the target afterwards. -/
def visit (t : Target) (q : Query) (viewport : Rect Binary64) : List Event × Target :=
  if t.isFinished || !viewport.meets t.bounds then ([], t)
  else match t.retrieve q viewport with
    | .error why => ([.failed t.id why], { t with progress := .failed })
    | .ok s => if viewport.contains t.bounds then (s.report, s.cover) else ([], s)

/-- Ends the search of the partition: the events, and the target afterwards. -/
def conclude (t : Target) : List Event × Target :=
  if t.isFinished then ([], t) else (t.report, t.close)

end Target
end Gazetteer
