import Stylesheet.Command

/-!
# The program

Reads the files that the arguments name, and prints what they ask for.
-/
open Stylesheet

/-- What the file system holds under a path. -/
def readSource (path : String) : IO Source := do
  try
    return .file (← IO.FS.readBinFile path)
  catch
    | .noFileOrDirectory .. => return .absent
    | .inappropriateType _ 21 _ => return .directory
    | .inappropriateType .. => return .behindFile
    | e => return .unreadable (toString e)

def main (arguments : List String) : IO UInt32 := do
  let paths := match Command.ofArguments arguments with
    | .ok command => command.paths
    | .error _ => []
  let sources ← paths.mapM fun path => return (path, ← readSource path)
  let output := Command.execute (fun path => (sources.lookup path).getD .absent) arguments
  IO.print output.stdout
  IO.eprint output.stderr
  return output.code.toUInt32
