import BeaconSsz.Command.Run

/-!
# The program

Reads the files that the command line names, runs the command on their contents, and prints the
text that it gives, or the reason why there is none.
-/

namespace BeaconSsz.Command

/-- The contents of those files that can be read. -/
def readFiles (paths : List String) : IO Files := do
  let found : List (String × Bytes) ← paths.filterMapM fun path : String => do
    match ← (IO.FS.readBinFile path).toBaseIO with
    | .ok contents => return some (path, contents.toList)
    | .error _ => return none
  return fun path => found.lookup path

/-- Prints lines for the reader's attention and gives an exit code. -/
def report (code : UInt32) (lines : List String) : IO UInt32 := do
  lines.forM IO.eprintln
  return code

end BeaconSsz.Command

open BeaconSsz.Command

/-- Runs the command that the arguments name. -/
def main (arguments : List String) : IO UInt32 := do
  match parseArguments arguments with
  | .error error => report error.exitCode [error.message]
  | .ok invocation =>
    match run (← readFiles invocation.paths) invocation with
    | .ok text =>
      IO.println text
      return 0
    | .error (.refused error) => report 1 error.chain
    | .error (.trapped trap) => report 101 [trap.message]
