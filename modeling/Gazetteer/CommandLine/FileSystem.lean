import Gazetteer.MessagePack.Writer

/-! What commands need of files, and files kept in memory. Paths are relative to the working
directory. -/
namespace Gazetteer

/-- The operations on files in a setting. -/
structure FileSystem (m : Type → Type) where
  /-- The bytes of a file, if it can be read. -/
  read : String → m (Option Bytes)
  /-- Makes a directory and those above it; tells whether it is there then. -/
  makeDirectory : String → m Bool
  /-- Writes a file, in place of an earlier one; tells whether it could be written. -/
  write : String → Bytes → m Bool

/-- The path of a file in a directory. A name that begins with a slash is a path of its own. -/
def pathIn (directory name : String) : String :=
  if name.startsWith "/" then name
  else if directory.endsWith "/" then directory ++ name
  else directory ++ "/" ++ name

/-- What is at a path. -/
inductive FileNode where
  | file (bytes : Bytes)
  | directory
deriving DecidableEq, Repr

/-- Files and directories by the names that lead to them. The working directory is always there. -/
structure FileTree where
  nodes : List (List String × FileNode) := []
deriving DecidableEq, Repr

namespace FileTree

def empty : FileTree := {}

def node? (t : FileTree) (place : List String) : Option FileNode :=
  if place.isEmpty then some .directory else t.nodes.lookup place

def put (t : FileTree) (place : List String) (node : FileNode) : FileTree :=
  ⟨(place, node) :: t.nodes.filter (·.1 ≠ place)⟩

/-- A name can be given to a file: it has at most 255 bytes, and no zero character. -/
def isName (name : String) : Bool := name.utf8ByteSize ≤ 255 && !name.toList.contains '\x00'

/-- The places that one step of a path leads to from a directory. -/
def step? (here : List String) (name : String) : Option (List String) :=
  if name = "" ∨ name = "." then some here
  else if name = ".." then if here.isEmpty then none else some here.dropLast
  else if isName name then some (here ++ [name])
  else none

/-- The steps of a path, unless it leaves the working directory at once. -/
def steps? (path : String) : Option (List String) :=
  if path.isEmpty ∨ path.startsWith "/" then none else some (path.splitOn "/")

/-- Where a path leads, if every step starts from a directory. -/
def place? (t : FileTree) (path : String) : Option (List String) := do
  (← steps? path).foldlM (fun here name => do
    guard (t.node? here = some .directory)
    step? here name) []

def read? (t : FileTree) (path : String) : Option Bytes := do
  match t.node? (← t.place? path) with
  | some (.file bytes) => some bytes
  | _ => none

/-- The tree with a file at a path, if it can be put there. -/
def write? (t : FileTree) (path : String) (bytes : Bytes) : Option FileTree := do
  let place ← t.place? path
  guard (t.node? place ≠ some .directory)
  some (t.put place (.file bytes))

/-- The tree with a directory at a path and all those above it, if they can be made. -/
def makeDirectory? (t : FileTree) (path : String) : Option FileTree := do
  let (t, _) ← (← steps? path).foldlM (fun ((t, here) : FileTree × List String) name => do
    let place ← step? here name
    match t.node? place with
    | some .directory => some (t, place)
    | some (.file _) => none
    | none => some (t.put place .directory, place)) (t, [])
  some t

/-- The files in a directory with their names, the one written last first. -/
def filesIn (t : FileTree) (path : String) : List (String × Bytes) :=
  match t.place? path with
  | none => []
  | some directory => t.nodes.filterMap fun (place, node) =>
    match node with
    | .file bytes =>
      if place.dropLast = directory then place.getLast?.map (·, bytes) else none
    | .directory => none

/-- The files of a tree that changes in the course of a command. -/
def system : FileSystem (StateM FileTree) where
  read := fun path => return (← get).read? path
  makeDirectory := fun path => modifyGet fun t =>
    match t.makeDirectory? path with
    | some t => (true, t)
    | none => (false, t)
  write := fun path bytes => modifyGet fun t =>
    match t.write? path bytes with
    | some t => (true, t)
    | none => (false, t)

end FileTree
end Gazetteer
