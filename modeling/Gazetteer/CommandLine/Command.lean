import Gazetteer.CommandLine.Flag
import Gazetteer.Decimal.Text
import Gazetteer.Settings
import Gazetteer.Text.Word

/-! The commands and their flags. -/
namespace Gazetteer

/-- What the flags of `build` choose. -/
structure BuildFlags where
  dataset : Option String := none
  out : Option String := none
deriving DecidableEq, Repr

/-- What the flags of `query` choose. Each setting replaces that of the settings file. -/
structure QueryFlags where
  text : Option String := none
  viewport : Option (Rect Binary64) := none
  datasets : List String := []
  partitions : List String := []
  settingsFile : Option String := none
  settings : Settings := {}
deriving DecidableEq, Repr

inductive Command where
  /-- Build the partitions of a dataset into files in a directory. -/
  | build (dataset out : String)
  /-- Search partitions for a text, beginning with a viewport. -/
  | query (text : String) (viewport : Rect Binary64) (flags : QueryFlags)
deriving DecidableEq, Repr

namespace Command

/-- A value for a choice that is still open. -/
def once {α : Type} (value : Option α) (earlier : Option α) : Option (Option α) :=
  if earlier.isSome then none else value.map some

/-- A path may not be empty. -/
def path? (s : String) : Option String := if s.isEmpty then none else some s

/-- A decimal number that may have a plus sign, and a minus sign before zero. -/
def natural? (minusZero : Bool) (bound : Nat) (s : String) : Option Nat :=
  let digits := match s.toList with
    | '+' :: cs => cs
    | '-' :: cs => if minusZero && cs.all (· = '0') then cs else []
    | cs => cs
  let (n, _, rest) := Decimal.readDigits digits
  if digits.isEmpty ∨ !rest.isEmpty ∨ bound ≤ n then none else some n

/-- A viewport: the coordinates of the lower and then of the upper corner, with commas between. -/
def viewport? (s : String) : Option (Rect Binary64) := do
  let coordinates ← (s.splitOn ",").mapM fun part =>
    Decimal.read? (String.ofList (Text.trim part.toList))
  match coordinates with
  | [x, y, x', y'] => if x' < x ∨ y' < y then none else some (.ofCorners ⟨x, y⟩ ⟨x', y'⟩)
  | _ => none

def buildFlags : List (Flag BuildFlags) := [
  { name := "dataset", about := "Dataset definition (TOML with `[[mwm]]` tables)", required := true
    set := fun v s => return { s with dataset := ← once (path? v) s.dataset } },
  { name := "out", about := "Directory to write `<name>.mwm` files into", required := true
    set := fun v s => return { s with out := ← once (path? v) s.out } }]

/-- Changes the settings among the choices. -/
def QueryFlags.setting (s : QueryFlags) (change : Settings → Option Settings) : Option QueryFlags := do
  return { s with settings := ← change s.settings }

def queryFlags : List (Flag QueryFlags) := [
  { name := "query", about := "Query text, e.g. \"whiskey bar\"", required := true
    set := fun v s => return { s with text := ← once (some v) s.text } },
  { name := "viewport", about := "Viewport as `minx,miny,maxx,maxy`", required := true
    takesDash := true
    set := fun v s => return { s with viewport := ← once (viewport? v) s.viewport } },
  { name := "dataset", about := "Dataset definitions to build in memory and search"
    set := fun v s => return { s with datasets := s.datasets ++ [← path? v] } },
  { name := "mwm", about := "Partition files written by `build`"
    set := fun v s => return { s with partitions := s.partitions ++ [← path? v] } },
  { name := "config", about := "Search configuration (TOML)"
    set := fun v s => return { s with settingsFile := ← once (path? v) s.settingsFile } },
  { name := "lang", about := "Languages to search (e.g. \"en\"). Overrides the config file"
    set := fun v s => QueryFlags.setting s fun t =>
      return { t with languages := t.languages ++ [← Language.ofCode? v] } },
  { name := "min-features", about := "Stop once this many features were found"
    set := fun v s => QueryFlags.setting s fun t => do
      let enough := (natural? false UInt64.size v).map UInt64.ofNat
      return { t with limits := { t.limits with enough := ← once enough t.limits.enough } } },
  { name := "max-viewport-scale", about := "Never grow the viewport beyond this factor"
    set := fun v s => QueryFlags.setting s fun t => do
      let ceiling ← once (Decimal.read? v) t.limits.ceiling
      return { t with limits := { t.limits with ceiling } } },
  { name := "scale", about := "Lookup scale, clamped to each partition's range"
    set := fun v s => QueryFlags.setting s fun t => do
      return { t with scale := ← once ((natural? true UInt8.size v).map UInt8.ofNat) t.scale } }]

def abouts : List (String × String) := [
  ("build", "Build partition files from a TOML dataset"),
  ("query", "Search registered partitions around a viewport"),
  ("help", "Print this message or the help of the given subcommand(s)")]

def column (width : Nat) (s : String) : String := s.pushn ' ' (width - s.length)

def help : List String :=
  ["Viewport-driven map feature search", "", "Usage: map_search <COMMAND>", "", "Commands:"]
    ++ abouts.map (fun c => "  " ++ column 5 c.1 ++ "  " ++ c.2)
    ++ ["", "Options:", "  -h, --help  Print help"]

/-- The help text on one command, by lines. Where a line would be too long, every description gets a
line of its own. -/
def helpOn {σ : Type} (name : String) (flags : List (Flag σ)) : List String :=
  let required := (flags.filter (·.required)).map fun f => " " ++ f.form
  let choice := if flags.all (·.required) then "" else " [OPTIONS]"
  let forms := flags.map fun f => ("      " ++ f.form, f.about)
  let forms := forms ++ [("  -h, --help", "Print help")]
  let width := (forms.map (·.1.length)).max?.getD 0
  let apart := 30 < width && forms.any fun f => 90 < width + f.2.length
  [(abouts.lookup name).getD "", "", "Usage: map_search " ++ name ++ choice ++ String.join required,
      "", "Options:"]
    ++ forms.flatMap fun f =>
      if apart then [f.1, "          " ++ f.2] else [column width f.1 ++ "  " ++ f.2]

/-- The command in the arguments, or the lines to print instead; there are none if the arguments are
wrong. -/
def parse (args : List String) : Except (Option (List String)) Command :=
  let orHelp {α : Type} (text : List String) (result : Except Stop α) :
      Except (Option (List String)) α :=
    result.mapError fun stop => if stop = .help then some text else none
  match args with
  | "build" :: rest => do
    let s ← orHelp (helpOn "build" buildFlags) (Flag.readAll buildFlags rest {})
    match s.dataset, s.out with
    | some dataset, some out => .ok (build dataset out)
    | _, _ => .error none
  | "query" :: rest => do
    let s ← orHelp (helpOn "query" queryFlags) (Flag.readAll queryFlags rest {})
    match s.text, s.viewport with
    | some text, some viewport => .ok (query text viewport s)
    | _, _ => .error none
  | ["help"] => .error (some help)
  | ["help", "build"] => .error (some (helpOn "build" buildFlags))
  | ["help", "query"] => .error (some (helpOn "query" queryFlags))
  | args => (orHelp help (Flag.readAll ([] : List (Flag Unit)) args ())).bind fun _ => .error none

end Command
end Gazetteer
