import RobotPuzzle.Command.Run
import Std.Time.DateTime.Timestamp

/-!
The command itself: it looks around, runs, prints and ends with the exit code.
-/

namespace RobotPuzzle.Command

/-- The system's words and number for a fault. A number may come as its negative. -/
def systemText (code : UInt32) (details : String) : String :=
  let number := if code < 0x80000000 then code else -code
  s!"{details.capitalize} (os error {number})"

def reasonText : IO.Error → String
  | .noFileOrDirectory _ code details => systemText code details
  | .permissionDenied _ code details => systemText code details
  | .inappropriateType _ code details => systemText code details
  | .invalidArgument _ code details => systemText code details
  | .resourceExhausted _ code details => systemText code details
  | .hardwareFault code details => systemText code details
  | .otherError code details => systemText code details
  | error => toString error

def fileBytes (path : String) : IO (Except String ByteArray) := do
  try
    return .ok (← IO.FS.readBinFile path)
  catch error =>
    return .error (reasonText error)

def now : IO Instant := do
  let stamp ← Std.Time.Timestamp.now
  return ⟨stamp.toSecondsSinceUnixEpoch.val, stamp.val.nano.val.toNat⟩

def surroundings (command : Command) : IO Surroundings := do
  let ceiling ← IO.getEnv "NAVIGATOR_MAX_STEPS"
  let now ← now
  let files ← command.files.mapM fun path => return (path, ← fileBytes path)
  return ⟨ceiling, now, fun path => (files.lookup path).getD (.error "not read")⟩

end RobotPuzzle.Command

open RobotPuzzle in
def main (arguments : List String) : IO UInt32 := do
  let outcome ←
    match Command.ofArguments arguments with
    | .error misuse => pure misuse.outcome
    | .ok command => pure (command.run (← command.surroundings))
  IO.print outcome.out
  IO.eprint outcome.err
  return outcome.code
