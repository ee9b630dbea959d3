import ArtifactQuery.CommandLine.Outcome
import Std.Time.DateTime.Timestamp

/-!
# The program

Reads the files that a call names, and prints the outcome of the call.
-/

namespace ArtifactQuery

/-- The content of a file that can be read. -/
def readText? (path : String) : IO (Option String) := do
  try return some (← IO.FS.readFile path) catch _ => return none

/-- Whether a file can be opened or made. -/
def canOpen (path : String) : IO Bool := do
  try
    let _ ← IO.FS.Handle.mk path .append
    return true
  catch _ => return false

/-- The variables with given names that are set. -/
def environmentOf (names : List String) : IO (List (String × String)) :=
  names.filterMapM fun n => do return (← IO.getEnv n).map (n, ·)

/-- The place of a run with these arguments. -/
def placeOf (a : Arguments) : IO Place := do
  let envFile := inDirectory a.config ".env"
  let paths := [envFile, inDirectory a.config "aql-engine.toml", a.db] ++ a.file.toList
  let files ← paths.filterMapM fun p => do return (← readText? p).map (p, ·)
  let names := Setting.all.map Setting.name ++ EnvFile.names ((files.lookup envFile).getD "")
  let environment ← environmentOf names
  let opens ← canOpen a.db
  return ⟨(files.lookup ·), fun _ => opens, environment⟩

end ArtifactQuery

open ArtifactQuery in
/-- Prints the outcome of a call, and ends with its code. -/
def main (args : List String) : IO UInt32 := do
  let now := (← Std.Time.Timestamp.now).toMillisecondsSinceUnixEpoch.val
  let place ← match Arguments.parse args with
    | .ok a => placeOf a
    | .error _ => pure ((Directory.mk "" []).place [])
  let outcome := Outcome.ofCall now place args
  IO.print outcome.output
  return outcome.code.toUInt32
