import RobotPuzzle.Script.Basic
import RobotPuzzle.World.Rules

/-!
Running a program under a ceiling of steps. Every action and every round of a loop takes one step;
the run stops at the first fault, or when a step is due and the ceiling has been reached.
-/

namespace RobotPuzzle

structure Run where
  world : World
  log : Log
  /-- Whether the latest action solved the puzzle. -/
  solved : Bool
  steps : Nat

inductive Halt
  | fault (fault : Fault)
  | stepLimit

inductive Ran
  | on (run : Run)
  | stopped (run : Run) (halt : Halt)

namespace Ran

def andThen (ran : Ran) (next : Run → Ran) : Ran :=
  match ran with
  | .on run => next run
  | .stopped run halt => .stopped run halt

def run : Ran → Run
  | .on run => run
  | .stopped run _ => run

end Ran

namespace Run

def start (world : World) : Run := ⟨world, #[], false, 0⟩

def tick (limit : Nat) (run : Run) : Ran :=
  if limit ≤ run.steps then .stopped run .stepLimit else .on { run with steps := run.steps + 1 }

def act (action : Action) (block : String) (run : Run) : Ran :=
  let ⟨world, log, solved, steps⟩ := run
  let effect := World.act action block world log
  match effect.outcome with
  | .ok solved => .on ⟨effect.world, effect.log, solved, steps⟩
  | .error kind =>
    .stopped ⟨effect.world, effect.log, solved, steps⟩ (.fault ⟨kind, effect.log⟩)

/-- Goes through `count` rounds of a body, each after a step of its own. -/
def rounds (limit : Nat) (body : Run → Ran) : Nat → Run → Ran
  | 0, run => .on run
  | count + 1, run =>
    match run.tick limit with
    | .stopped run halt => .stopped run halt
    | .on run =>
      match body run with
      | .stopped run halt => .stopped run halt
      | .on run => rounds limit body count run

end Run

mutual

def Instruction.run (limit : Nat) (instruction : Instruction) (run : Run) : Ran :=
  match instruction with
  | .act action block => (run.tick limit).andThen (Run.act action block)
  | .loop count body _ => run.rounds limit (Script.run limit body) count.toNat

def Script.run (limit : Nat) (script : List Instruction) (run : Run) : Ran :=
  match script with
  | [] => .on run
  | instruction :: rest => (instruction.run limit run).andThen (Script.run limit rest)

end

structure Attempt where
  world : World
  log : Log
  verdict : Verdict
  fault : Option Fault
  steps : Nat

def defaultMaxSteps : Nat := 10000

namespace Attempt

/-- A program that came to its end solved the puzzle if its last action did. -/
def ofRan (ran : Ran) : Attempt :=
  let run := ran.run
  match ran with
  | .on _ =>
    ⟨run.world, run.log, if run.solved then .success else .incomplete, none, run.steps⟩
  | .stopped _ (.fault fault) => ⟨run.world, run.log, .fault fault.kind, some fault, run.steps⟩
  | .stopped _ .stepLimit => ⟨run.world, run.log, .stepLimitExceeded, none, run.steps⟩

def ofScript (limit : Nat) (script : Script) (world : World) : Attempt :=
  ofRan (Script.run limit script (.start world))

def notRun (world : World) : Attempt := ⟨world, #[], .incomplete, none, 0⟩

end Attempt

end RobotPuzzle
