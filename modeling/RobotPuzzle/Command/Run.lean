import RobotPuzzle.Command.Arguments
import RobotPuzzle.Format.File
import RobotPuzzle.Session.Basic
import RobotPuzzle.Text.Blank
import RobotPuzzle.Text.Quoted

/-!
What the command does: it loads an exercise, follows recorded events, clicks on execute once, ends
the exercise and reports. Everything it finds around itself is an argument.
-/

namespace RobotPuzzle.Command

structure Surroundings where
  /-- The value of `NAVIGATOR_MAX_STEPS`, if that is set. -/
  ceiling : Option String
  now : Instant
  /-- The bytes of a file, or why it cannot be read. -/
  file : String → Except String ByteArray

inductive LoadError
  | unread (reason : String)
  | badText (reason : String)
  | badExercise (cause : ExerciseError)
deriving DecidableEq, Repr

def LoadError.message : LoadError → String
  | .unread reason => reason
  | .badText reason => s!"invalid JSON: {reason}"
  | .badExercise cause => cause.message

inductive Failure
  | badCeiling (value : String) (cause : Text.NumeralError)
  | badExercise (cause : LoadError)
  | badEvents (path : String) (cause : LoadError)
deriving DecidableEq, Repr

namespace Failure

def message : Failure → String
  | .badCeiling value cause =>
    s!"Invalid NAVIGATOR_MAX_STEPS {Text.quoted value}: {cause.message}"
  | .badExercise cause => s!"Error loading exercise: {cause.message}"
  | .badEvents path cause => s!"Error reading events {path}: {cause.message}"

/-- The exit code: 2 when the call is at fault, 1 when an input is. -/
def code : Failure → UInt32
  | .badCeiling .. => 2
  | .badExercise _ => 1
  | .badEvents .. => 1

end Failure

def defaultExercise : String := "blockly2d:0"

/-- The step ceiling: the surroundings go before the options. -/
def ceiling (options : Options) (surroundings : Surroundings) : Except Failure Nat :=
  match surroundings.ceiling with
  | none => .ok (options.maxSteps.getD defaultMaxSteps)
  | some value =>
    match Text.numeral UInt64.size (Text.trim value.toList) with
    | .error cause => .error (.badCeiling value cause)
    | .ok ceiling => .ok ceiling

def load {α : Type} (surroundings : Surroundings) (path : String) (read : String → Option α) :
    Except LoadError α :=
  match surroundings.file path with
  | .error reason => .error (.unread reason)
  | .ok bytes =>
    match String.fromUTF8? bytes with
    | none => .error (.badText "the file is not UTF-8")
    | some text =>
      match read text with
      | none => .error (.badText "the file does not hold what it should")
      | some value => .ok value

def exercise (options : Options) (surroundings : Surroundings) : Except Failure Exercise :=
  match options.exerciseFile with
  | some path => (load surroundings path Exercise.ofText?).mapError .badExercise
  | none =>
    (Catalog.find (options.exercise.getD defaultExercise)).mapError
      fun cause => .badExercise (.badExercise cause)

def events (options : Options) (surroundings : Surroundings) :
    Except Failure (List TimedEvent) :=
  match options.events with
  | none => .ok []
  | some path => (load surroundings path TimedEvent.listOfText?).mapError (.badEvents path)

structure Played where
  session : Session
  report : Report

/-- Plays a session. It begins at the time of the first event and ends at that of the last one;
without events both are now. -/
def played (options : Options) (surroundings : Surroundings) : Except Failure Played := do
  let ceiling ← ceiling options surroundings
  let exercise ← exercise options surroundings
  let events ← events options surroundings
  let timeOf (event : Option TimedEvent) := (event.map (·.time)).getD surroundings.now
  let loaded ←
    (Session.load exercise ceiling (timeOf events.head?)).mapError
      fun cause => .badExercise (.badExercise cause)
  let followed := events.foldl Session.handle loaded
  let (executed, report) := followed.execute (timeOf events.getLast?)
  return ⟨executed.finish (timeOf events.getLast?), report⟩

namespace Played

def isSuccess (played : Played) : Bool := played.report.feedback = .success

def text (played : Played) (withRecord : Bool) : String :=
  let result := played.report.result
  let codes := ", ".intercalate (result.log.toList.map fun entry => entry.deed.code)
  let attempt :=
    [ s!"Exercise: {played.session.exercise.url}",
      s!"  Program: {played.report.fingerprint}",
      s!"  Operations: [{codes}]",
      s!"  Verdict: {result.verdict.text}" ]
  let fault := result.fault.toList.map fun fault => s!"  Error: {fault.kind.message}"
  let summary := if played.isSuccess then [played.session.summary.text] else []
  let record := if withRecord then [played.session.recorder.record.text] else []
  String.join ((attempt ++ fault ++ summary ++ record).map (· ++ "\n"))

end Played

structure Outcome where
  code : UInt32
  out : String
  err : String
deriving DecidableEq, Repr

def catalogText : String :=
  String.join
    (Catalog.exercises.map fun exercise =>
      s!"{exercise.url}\t{exercise.idealBlocks} ideal blocks\n")

def usageText : String := "Usage: run_exercise [OPTIONS]"

def helpText : String :=
  "Replay and execute one robot-navigation exercise\n\n" ++ usageText ++ "

Options:
      --exercise <URL>        Built-in exercise url [default: blockly2d:0]
      --exercise-file <PATH>  Exercise definition file (JSON) instead of a built-in exercise
      --events <PATH>         Recorded editor events (JSON array) to replay before executing
      --max-steps <N>         Step ceiling for one attempt. Overridden by NAVIGATOR_MAX_STEPS if set
      --json                  Print the session record as JSON
      --list                  List built-in exercises and exit
  -h, --help                  Print help

Environment variables (override flags when set):
  NAVIGATOR_MAX_STEPS   Step ceiling for one attempt (default 10000).

Examples:
  run_exercise --list
  run_exercise --exercise blockly2d:3
  run_exercise --exercise-file my_map.json --events session.json --json
"

/-- Does what is asked. A session without success gives exit code 1. -/
def run (command : Command) (surroundings : Surroundings) : Outcome :=
  match command with
  | .help => ⟨0, helpText, ""⟩
  | .list => ⟨0, catalogText, ""⟩
  | .play options =>
    match played options surroundings with
    | .error failure => ⟨failure.code, "", failure.message ++ "\n"⟩
    | .ok played => ⟨if played.isSuccess then 0 else 1, played.text options.json, ""⟩

def Misuse.outcome (misuse : Misuse) : Outcome :=
  ⟨2, "", s!"error: {misuse.message}\n\n{usageText}\n\nFor more information, try '--help'.\n"⟩

def files : Command → List String
  | .help => []
  | .list => []
  | .play options => options.exerciseFile.toList ++ options.events.toList

end RobotPuzzle.Command
