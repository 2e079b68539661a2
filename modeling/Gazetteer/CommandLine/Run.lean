import Gazetteer.CommandLine.Command
import Gazetteer.CommandLine.FileSystem
import Gazetteer.Dataset
import Gazetteer.Search.Basic
import Gazetteer.Text.Quotation

/-! Running commands: what they read and write, and what they print. -/
namespace Gazetteer

/-- What a command prints, by lines: its results, and the partitions that it passed over. -/
structure Printout where
  lines : List String := []
  skipped : List String := []
deriving DecidableEq, Repr

/-- Why a command came to nothing. -/
inductive CommandFailure where
  | partition (error : PartitionError)
  /-- The settings file cannot be read, or holds no settings. -/
  | settings
  /-- The directory for the results cannot be made. -/
  | directory
  | nothingToSearch
deriving DecidableEq, Repr

def PartitionError.details : PartitionError → String
  | file => "Io"
  | unreadable => "Decode"
  | dataset => "Dataset"
  | textIndex why => malformed Partition.textTag (why.reason Trie.Fault.reason)
  | placeIndex why => malformed Partition.placeTag (why.reason CellIndex.Fault.reason)
  | features => malformed Partition.featuresTag ""
  | missingSection tag => "MissingSection(" ++ Text.quoted tag ++ ")"
  | unsupportedFormat found => record "UnsupportedFormat"
      [("found", toString found.toNat), ("expected", toString Header.currentFormat.toNat)]
  | emptyPartition name => "EmptyPartition(" ++ Text.quoted name ++ ")"
  | outOfWorld name feature point => record "OutOfWorld"
      [("mwm", Text.quoted name), ("feature", toString feature),
        ("x", Decimal.text .detailed point.x), ("y", Decimal.text .detailed point.y)]
  | unknownLanguage index => "UnknownLang(" ++ Text.quoted (toString index.toNat) ++ ")"
where
  record (name : String) (fields : List (String × String)) : String :=
    name ++ " \x7b " ++ ", ".intercalate (fields.map fun f => f.1 ++ ": " ++ f.2) ++ " \x7d"
  malformed (tag reason : String) : String :=
    record "MalformedIndex" [("tag", Text.quoted tag), ("reason", Text.quoted reason)]

def CommandFailure.details : CommandFailure → String
  | partition e => e.details
  | settings => "Settings"
  | directory => "Directory"
  | nothingToSearch => Text.quoted "no partitions to search; pass --dataset or --mwm"

namespace Printout

def append (p q : Printout) : Printout := ⟨p.lines ++ q.lines, p.skipped ++ q.skipped⟩

def alignRight (width : Nat) (s : String) : String := "".pushn ' ' (width - s.length) ++ s

def featureLine (records : List Feature) (id : FeatureId) : String :=
  let number := "  " ++ alignRight 6 (toString id.toNat) ++ "  "
  match records[id.toNat]? with
  | none => number ++ "<missing record>"
  | some f =>
    let coordinate (x : Binary64) : String := alignRight 10 (Decimal.fixed 4 x)
    number ++ "(" ++ coordinate f.point.x ++ ", " ++ coordinate f.point.y ++ ")  "
      ++ f.anyName?.getD ""

/-- What is printed for an event. Without records, the numbers of the features have to do. -/
def ofEvent (c : Catalog) : Event → Printout
  | .reported id features =>
    let records := (c.byId id).registration?.bind fun r => r.partition.features.toOption
    let heading := id.text ++ " (" ++ toString features.length ++ " features)"
    let numbers := ", ".intercalate (features.map fun f => toString f.toNat)
    match records with
    | some records => ⟨heading :: features.map (featureLine records), []⟩
    | none => ⟨[heading, "  [" ++ numbers ++ "]"], []⟩
  | .failed id why => ⟨[], [id.text ++ " skipped: " ++ why.message id]⟩

/-- The last line: how many features, in how many partitions, and how many of them failed. -/
def summary (events : List Event) : String :=
  let found := events.filterMap fun
    | .reported _ features => some features
    | .failed .. => none
  let failed := events.length - found.length
  toString found.flatten.length ++ " features in " ++ toString found.length ++ " mwms ("
    ++ toString failed ++ " failed)"

def ofEvents (c : Catalog) (events : List Event) : Printout :=
  let printed := events.map (ofEvent c)
  let ruler := "".pushn '-' 60
  ⟨printed.flatMap (·.lines) ++ [ruler, summary events], printed.flatMap (·.skipped)⟩

end Printout

def Settings.overriddenBy (file flags : Settings) : Settings where
  languages := if flags.languages.isEmpty then file.languages else flags.languages
  scale := flags.scale.or file.scale
  limits :=
    ⟨flags.limits.enough.or file.limits.enough, flags.limits.ceiling.or file.limits.ceiling⟩

def Settings.queryFor (s : Settings) (text : String) : Query :=
  let q := Query.ofText text s.languages
  { q with scale := s.scale.getD q.scale }

namespace Command

variable {m : Type → Type} [Monad m]

def readText (fs : FileSystem m) (path : String) : m (Option String) := do
  return (← fs.read path).bind fun bytes => String.fromUTF8? ⟨bytes.toArray⟩

def readDataset (fs : FileSystem m) (path : String) : ExceptT PartitionError m (List Draft) := do
  match ← (readText fs path : m _) with
  | none => throw .file
  | some text => Dataset.parse text

def readPartition (fs : FileSystem m) (path : String) : ExceptT PartitionError m Partition := do
  Partition.ofFile (← fs.read path)

def fileName (p : Partition) : String := p.name ++ ".mwm"

/-- Writes partitions into a directory, up to the first that cannot be written. -/
def writeAll (fs : FileSystem m) (out : String) : List Partition → ExceptT PartitionError m Unit
  | [] => return
  | p :: ps => do
    unless ← fs.write (pathIn out (fileName p)) p.encode do throw .file
    writeAll fs out ps

def runBuild (fs : FileSystem m) (dataset out : String) : ExceptT CommandFailure m Unit := do
  let drafts ← ExceptT.adapt .partition (readDataset fs dataset)
  unless ← fs.makeDirectory out do throw .directory
  ExceptT.adapt .partition do writeAll fs out (← Dataset.build drafts)

/-- The partitions of some datasets, built in memory. -/
def datasetPartitions (fs : FileSystem m) (paths : List String) :
    ExceptT PartitionError m (List Partition) := do
  return (← paths.mapM fun path => do Dataset.build (← readDataset fs path)).flatten

/-- The settings in a file, if there is one to read. -/
def readSettings (fs : FileSystem m) : Option String → ExceptT CommandFailure m Settings
  | none => return {}
  | some path => do
    match (← (readText fs path : m _)) >>= Settings.parse? with
    | none => throw .settings
    | some settings => return settings

/-- The catalog of the partitions in datasets and in partition files, in this order. -/
def readCatalog (fs : FileSystem m) (datasets partitions : List String) :
    ExceptT PartitionError m Catalog := do
  let built ← datasetPartitions fs datasets
  let read ← partitions.mapM (readPartition fs)
  return Catalog.empty.registerAll (built ++ read)

def runQuery (fs : FileSystem m) (text : String) (viewport : Rect Binary64) (flags : QueryFlags) :
    ExceptT CommandFailure m Printout := do
  let settings := (← readSettings fs flags.settingsFile).overriddenBy flags.settings
  let catalog ← ExceptT.adapt .partition (readCatalog fs flags.datasets flags.partitions)
  if catalog.registrations.isEmpty then throw .nothingToSearch
  let search := Search.start catalog.source viewport (settings.queryFor text) settings.limits
  return Printout.ofEvents catalog search.run.1

def run (fs : FileSystem m) : Command → ExceptT CommandFailure m Printout
  | build dataset out => do
    runBuild fs dataset out
    return {}
  | query text viewport flags => runQuery fs text viewport flags

end Command
end Gazetteer
