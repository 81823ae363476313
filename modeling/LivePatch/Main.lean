import LivePatch.Command.Run

/-!
# The program

Reads the command line and the files, prints the report, and ends with its code.
-/

namespace LivePatch

/-- Read a file from disk. -/
def readDisk : FileReader IO := fun path => do
  try
    return .ok (← IO.FS.readFile path)
  catch e =>
    match e with
    | .noFileOrDirectory .. => return .error .notFound
    | .inappropriateType _ 21 _ => return .error .isDirectory
    | .inappropriateType .. => return .error .notDirectory
    | .userError _ => return .error (.unreadable "stream did not contain valid UTF-8")
    | e => return .error (.unreadable (toString e))

/-- What is said about a command line that is not understood. -/
def usage : String :=
  "Usage: hotpatch rewrite [--config <CONFIG>] [--annotate] [--cast-returns] " ++
  "[--implicit-private] [--json] <FILE>\n       hotpatch parse [--json] <FILE>\n"

end LivePatch

def main (args : List String) : IO UInt32 := do
  match LivePatch.Command.ofArguments? args with
  | none =>
    (← IO.getStderr).putStr LivePatch.usage
    return 2
  | some command =>
    let report ← command.run LivePatch.readDisk
    (← IO.getStdout).putStr report.output
    (← IO.getStderr).putStr report.errors
    return report.code.toUInt32
