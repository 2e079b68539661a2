import Gazetteer.CommandLine.Run

/-! The `map_search` command. -/
namespace Gazetteer

def attempt {α : Type} (act : IO α) : IO (Option α) := do
  try return some (← act) catch _ => return none

def machineFiles : FileSystem IO where
  read := fun path => do
    return (← attempt (IO.FS.readBinFile path)).map fun bytes => bytes.data.toList
  makeDirectory := fun path => do
    return (← attempt (IO.FS.createDirAll path)).isSome
  write := fun path bytes => do
    return (← attempt (IO.FS.writeBinFile path ⟨bytes.toArray⟩)).isSome

def execute (args : List String) : IO UInt32 := do
  match Command.parse args with
  | .error none =>
    IO.eprintln "error: invalid arguments; see --help"
    return 2
  | .error (some text) =>
    text.forM IO.println
    return 0
  | .ok command =>
    match ← (command.run machineFiles).run with
    | .error why =>
      IO.eprintln ("Error: " ++ why.details)
      return 1
    | .ok printout =>
      printout.skipped.forM IO.eprintln
      printout.lines.forM IO.println
      return 0

end Gazetteer

def main (args : List String) : IO UInt32 := Gazetteer.execute args
