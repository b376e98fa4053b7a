import ProbePoints.CommandLine.Run

/-!
# The command

Reads the arguments, runs the command on the files of the system and prints what it leaves on its streams.
-/

namespace ProbePoints

/-- The reason of a failure to reach a file. -/
def failureReason : IO.Error → String
  | .noFileOrDirectory _ _ reason | .permissionDenied _ _ reason | .inappropriateType _ _ reason
  | .invalidArgument _ _ reason => reason.capitalize
  | error => toString error

/-- Access to the files of the system. -/
def systemFiles : FileAccess IO where
  read path := do
    try return .ok (← IO.FS.readFile path)
    catch error => return .error (failureReason error)
  write path content := do
    try return .ok (← IO.FS.writeFile path content)
    catch error => return .error (failureReason error)

end ProbePoints

/-- Runs the command and gives its exit status. -/
def main (arguments : List String) : IO UInt32 := do
  let result ← ProbePoints.runArguments ProbePoints.systemFiles arguments
  IO.eprint result.stderr
  IO.print result.stdout
  return result.exit
