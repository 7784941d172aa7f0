import RobotPuzzle.Script.Run
import RobotPuzzle.Session.Exercise
import RobotPuzzle.Session.Recorder
import RobotPuzzle.Session.Summary
import RobotPuzzle.Workspace.Compile

/-!
A session with one exercise: the editor's events are recorded, and every click on execute compiles
the workspace, runs the program in the world as it was at the start, and books the attempt.
-/

namespace RobotPuzzle

inductive Feedback
  | success
  | failure (attempt : Nat) (verdict : Verdict)
deriving DecidableEq, Repr

structure Report where
  attempt : Nat
  result : Attempt
  feedback : Feedback
  fingerprint : String

structure Session where
  exercise : Exercise
  world : World
  recorder : Recorder
  maxSteps : Nat

namespace Session

def load (exercise : Exercise) (maxSteps : Nat) (time : Instant) : Except ExerciseError Session :=
  match exercise.world with
  | .error cause => .error cause
  | .ok world =>
    let recorder := (Recorder.start exercise.idealBlocks).seed exercise.program
    .ok ⟨exercise, world, recorder.beginPlanning time, maxSteps⟩

def handle (session : Session) (event : TimedEvent) : Session :=
  { session with recorder := session.recorder.handle event.event event.time }

/-- Runs the program of the workspace. Without an entry block nothing runs. -/
def attempt (session : Session) : Attempt :=
  match session.recorder.workspace.compile with
  | .error _ => .notRun session.world
  | .ok script => .ofScript session.maxSteps script session.world

def execute (session : Session) (time : Instant) : Session × Report :=
  let result := session.attempt
  let success := result.verdict.isSuccess
  let recorder := session.recorder.beginExecution time
  let number := recorder.record.attempt
  ({ session with recorder := recorder.book success time },
    { attempt := number
      result
      feedback := if success then .success else .failure number result.verdict
      fingerprint := recorder.fingerprint })

def finish (session : Session) (time : Instant) : Session :=
  { session with recorder := session.recorder.finish time }

def summary (session : Session) : Summary := .ofRecord session.recorder.record

end Session

end RobotPuzzle
