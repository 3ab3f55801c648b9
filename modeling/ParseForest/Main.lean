import ParseForest.Command.Run

/-!
# The program

Reads the files that the command line names, runs the command and writes what it
leaves.
-/

namespace ParseForest

/-- The number of an error of the system, which may come with its sign changed. -/
def systemNumber (code : UInt32) : Nat :=
  min code.toNat (0 - code).toNat

def FileFault.ofNumber (number : Nat) (details : String) : FileFault :=
  match number with
  | 2 => .notFound
  | 13 => .permissionDenied
  | 20 => .notDirectory
  | 21 => .isDirectory
  | 36 => .nameTooLong
  | _ => .other s!"{details} (os error {number})"

def FileFault.ofSystem : IO.Error → FileFault
  | .noFileOrDirectory .. => .notFound
  | .permissionDenied .. => .permissionDenied
  | .inappropriateType _ code details | .invalidArgument _ code details =>
    .ofNumber (systemNumber code) details
  | e => .other (toString e)

def readPath (path : String) : IO (Except FileFault String) := do
  try
    return textOfBytes (← IO.FS.readBinFile path)
  catch e =>
    return .error (.ofSystem e)

/-- The content of some paths. Nothing else is read. -/
def readPaths (paths : List String) : IO Files := do
  let contents ← paths.mapM fun path => return (path, ← readPath path)
  return fun path => (contents.lookup path).getD (.error .notFound)

/-- Whether to paint: if it is asked for, or on a terminal if it is not refused. -/
def wantsColor : IO Bool := do
  let forced ← IO.getEnv "CLICOLOR_FORCE"
  if forced.any (· ≠ "0") then return true
  if (← IO.getEnv "NO_COLOR").isSome || (← IO.getEnv "CLICOLOR") == some "0" then return false
  (← IO.getStdout).isTty

end ParseForest

def main (arguments : List String) : IO UInt32 := do
  let files ← ParseForest.readPaths (ParseForest.Command.pathsOf arguments)
  let color ← ParseForest.wantsColor
  let outcome := ParseForest.Command.execute files color arguments
  IO.print outcome.out
  IO.eprint outcome.err
  return outcome.code.toNat.toUInt32
