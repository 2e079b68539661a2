import Gazetteer.Partition.Format
import Gazetteer.PartitionId

/-! The catalog of partitions: one partition for each name, in the order of their first
registration. Each registration gets a generation that no other one has. -/
namespace Gazetteer

/-- A partition with the identifier that it is registered under. -/
structure Registration where
  id : PartitionId
  partition : Partition
deriving DecidableEq, Repr

/-- What comes of asking for a partition. A live handle holds the data for good; a dead one stands
for a partition that is not registered. -/
inductive Handle where
  | live (registration : Registration)
  | dead (id : PartitionId)
deriving DecidableEq, Repr

namespace Handle

def id : Handle → PartitionId
  | live r => r.id
  | dead id => id

def registration? : Handle → Option Registration
  | live r => some r
  | dead _ => none

def isLive (h : Handle) : Bool := h.registration?.isSome

end Handle

structure Catalog where
  registrations : List Registration := []
  /-- How many registrations there have been: the latest generation. -/
  issued : Nat := 0
deriving DecidableEq, Repr

namespace Catalog

def empty : Catalog := {}

/-- What registering a partition came to. -/
inductive Outcome where
  /-- The partition is new, or replaces an older version. -/
  | added
  /-- The same version is there already. -/
  | present
  /-- A newer version is there. -/
  | outdated
deriving DecidableEq, Repr

def ids (c : Catalog) : List PartitionId := c.registrations.map (·.id)

def named? (c : Catalog) (name : String) : Option Registration :=
  c.registrations.find? (·.id.name = name)

/-- No registration has generation 0, so this identifier stands for no partition. -/
def absent (name : String) : Handle := .dead ⟨name, 0⟩

def byName (c : Catalog) (name : String) : Handle := ((c.named? name).map .live).getD (absent name)

def byId (c : Catalog) (id : PartitionId) : Handle :=
  ((c.registrations.find? (·.id = id)).map .live).getD (.dead id)

/-- Puts a registration in the place of the one with its name, or at the end. -/
def place (r : Registration) : List Registration → List Registration
  | [] => [r]
  | s :: rest => if s.id.name = r.id.name then r :: rest else s :: place r rest

/-- Registers a partition under the next generation. -/
def add (c : Catalog) (p : Partition) : Registration × Catalog :=
  let r : Registration := ⟨⟨p.name, c.issued + 1⟩, p⟩
  (r, ⟨place r c.registrations, c.issued + 1⟩)

/-- Registers a partition, unless one of its name and of the same or a newer version is there. -/
def register (c : Catalog) (p : Partition) : Outcome × Handle × Catalog :=
  let added :=
    let (r, c) := c.add p
    (.added, .live r, c)
  match c.named? p.name with
  | none => added
  | some r =>
    if p.header.version = r.partition.header.version then (.present, .live r, c)
    else if p.header.version < r.partition.header.version then (.outdated, absent p.name, c)
    else added

/-- Registers the partition in a file, given the file's bytes if it can be read. -/
def registerFile (c : Catalog) (file : Option Bytes) :
    Except PartitionError (Outcome × Handle × Catalog) :=
  c.register <$> Partition.ofFile file

def registerAll (c : Catalog) (ps : List Partition) : Catalog :=
  ps.foldl (fun c p => (c.register p).2.2) c

/-- Removes the partition with a name: whether there was one, and the catalog afterwards. -/
def remove (c : Catalog) (name : String) : Bool × Catalog :=
  let kept := c.registrations.filter (·.id.name ≠ name)
  (kept.length ≠ c.registrations.length, { c with registrations := kept })

/-- The catalog after a partition is removed. -/
def deregister (c : Catalog) (name : String) : Catalog := (c.remove name).2

end Catalog
end Gazetteer
