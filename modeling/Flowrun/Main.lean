import Flowrun.Command
import Std.Time.DateTime.Timestamp

/-!
# The program

Reads the files that the command line names, draws a stem for the ids, looks at the clock, and
prints what `Command.run` says.
-/

namespace Flowrun.Command

/-- The words of the system for an error. -/
def reason : IO.Error → String
  | .noFileOrDirectory .. => "No such file or directory (os error 2)"
  | .permissionDenied .. => "Permission denied (os error 13)"
  | .inappropriateType .. => "Is a directory (os error 21)"
  | e => toString e

def load (path : String) : IO (Except String String) := do
  try
    return .ok (← IO.FS.readFile path)
  catch e =>
    return .error (reason e)

/-- What every file of a list holds. -/
def loadAll (paths : List String) : IO Files := do
  let loaded ← paths.mapM fun path => return (path, ← load path)
  return fun path => (loaded.lookup path).getD (.error "No such file or directory (os error 2)")

/-- A stem that no other run draws. -/
def drawStem : IO String := do
  let words ← (List.range 4).mapM fun _ => IO.rand 0 0xFFFFFFFF
  return String.intercalate "-" (words.map fun n => String.ofList (Nat.toDigits 16 n))

def presentMoment : IO Instant := do
  let t := (← Std.Time.Timestamp.now).toNanosecondsSinceUnixEpoch.toInt
  return ⟨t / 1000000000, (t % 1000000000).toNat⟩

def runArgs (args : List String) : IO UInt32 := do
  let files ← loadAll (((Invocation.ofArgs? args).map Invocation.paths).getD [])
  let outcome := run files ⟨← drawStem, 0⟩ (← presentMoment) args
  IO.print outcome.stdout
  IO.eprint outcome.stderr
  return outcome.exitCode

end Flowrun.Command

def main (args : List String) : IO UInt32 := Flowrun.Command.runArgs args
