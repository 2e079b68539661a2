import Gazetteer.Binary64

/-! The values of TOML, and how tables grow. A table is open to more entries or not, as it was
made. -/
namespace Gazetteer.Toml

/-- How a table was made. -/
inductive Origin where
  /-- By a header of its own. -/
  | header
  /-- On the way to the table of a header. -/
  | implied
  /-- By a dotted key. -/
  | dotted
  /-- In braces: nothing can be added to it. -/
  | braces
deriving DecidableEq, Repr

inductive Value where
  | text (s : String)
  | integer (n : Int)
  | real (x : Binary64)
  | boolean (b : Bool)
  /-- A date, a time, or both. -/
  | moment
  | array (items : List Value)
  /-- An array of tables with headers, the latest first. -/
  | tables (latestFirst : List Value)
  | table (origin : Origin) (entries : List (String × Value))

abbrev Entries := List (String × Value)

def Entries.replace (es : Entries) (key : String) (v : Value) : Entries :=
  es.map fun e => if e.1 = key then (key, v) else e

/-- Changes the table at the end of a path from a table, which is given by its origin and entries.
Tables that are missing are made. A header may lead through every table that is not in braces, and
through the latest of an array of tables; a dotted key leads through no table with a header of its
own. -/
def changeAt (dotted : Bool) (change : Origin → Entries → Option Entries) :
    (path : List String) → Origin → Entries → Option Entries
  | [], origin, es => change origin es
  | key :: path, _, es =>
    match es.lookup key with
    | none => do
      let origin := if dotted then .dotted else .implied
      some (es ++ [(key, .table origin (← changeAt dotted change path origin []))])
    | some (.table origin below) => do
      guard (origin ≠ .braces ∧ ¬ (dotted ∧ origin = .header))
      some (es.replace key (.table origin (← changeAt dotted change path origin below)))
    | some (.tables (.table origin below :: earlier)) => do
      let latest := .table origin (← changeAt dotted change path origin below)
      some (es.replace key (.tables (latest :: earlier)))
    | some _ => none

/-- Adds an entry for a dotted key to a table. Only a table that was made by dotted keys can be
added to by them. -/
def addPair (keys : List String) (v : Value) (origin : Origin) (es : Entries) : Option Entries := do
  let key ← keys.getLast?
  let path := keys.dropLast
  changeAt true (fun origin es => do
    guard (path.isEmpty ∨ origin = .dotted)
    guard (es.lookup key).isNone
    some (es ++ [(key, v)])) path origin es

/-- The table for a header. One that was made on the way to another becomes its own. -/
def openTable (key : String) (es : Entries) : Option Entries :=
  match es.lookup key with
  | none => some (es ++ [(key, .table .header [])])
  | some (.table .implied below) => some (es.replace key (.table .header below))
  | some _ => none

def openItem (key : String) (es : Entries) : Option Entries :=
  match es.lookup key with
  | none => some (es ++ [(key, .tables [.table .header []])])
  | some (.tables earlier) => some (es.replace key (.tables (.table .header [] :: earlier)))
  | some _ => none

def addHeader (isItem : Bool) (keys : List String) (es : Entries) : Option Entries := do
  let key ← keys.getLast?
  changeAt false (fun _ es => if isItem then openItem key es else openTable key es) keys.dropLast
    .header es

def bracesOf? (pairs : List (List String × Value)) : Option Value := do
  let es ← pairs.foldlM (fun es p => addPair p.1 p.2 .header es) []
  some (.table .braces es)

end Gazetteer.Toml
