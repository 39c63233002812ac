import Matchmaker.CommandLine.Session

/-!
The program: runs one command. Its tables live as long as the process.
-/
namespace Matchmaker

def readVariables (names : List String) : IO (List (String × String)) :=
  names.filterMapM fun name => do
    return (← IO.getEnv name).map fun value => (name, value)

def readFiles (names : List String) : IO (List (String × String)) :=
  names.filterMapM fun (name : String) => do
    try
      return some (name, ← IO.FS.readFile name)
    catch _ => return none

def runCommand (environment : List (String × String)) (i : CommandLine.Invocation) : IO UInt32 := do
  let files ← readFiles i.files
  let tables : Database Float := {}
  let entropy ← IO.rand 0 (Nat.pow 2 31)
  let surroundings : CommandLine.Surroundings :=
    ⟨fun name => environment.lookup name, fun name => files.lookup name, entropy⟩
  let (outcome, _) := i.run surroundings ⟨tables.migrate.2, {}⟩
  IO.print outcome.output
  match outcome.failure with
  | none => return 0
  | some e =>
    IO.eprintln ("Error: " ++ e.message)
    return 1

end Matchmaker

open Matchmaker in
def main (args : List String) : IO UInt32 := do
  let environment ← readVariables (Settings.variableNames ++ CommandLine.variableNames)
  match CommandLine.Invocation.read (fun name => environment.lookup name) args with
  | .ok i => runCommand environment i
  | .error e =>
    if e.isAnswer then
      IO.println e.message
      return 0
    IO.eprintln e.message
    return 2
