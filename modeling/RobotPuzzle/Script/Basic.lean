import RobotPuzzle.World.Action

/-!
Programs: instructions in order, some of which repeat a body of further instructions. Every
instruction knows the block it came from.
-/

namespace RobotPuzzle

inductive Instruction
  | act (action : Action) (block : String)
  | loop (count : UInt32) (body : List Instruction) (block : String)
deriving Repr

abbrev Script := List Instruction

def Instruction.block : Instruction → String
  | .act _ block => block
  | .loop _ _ block => block

inductive Verdict
  | success
  /-- The program came to its end, but not to the goal. -/
  | incomplete
  | fault (kind : FaultKind)
  | stepLimitExceeded
deriving DecidableEq, Repr

namespace Verdict

def isSuccess (verdict : Verdict) : Bool := verdict == .success

def faultKind? : Verdict → Option FaultKind
  | .fault kind => some kind
  | _ => none

def text : Verdict → String
  | .success => "success"
  | .incomplete => "incomplete"
  | .fault kind => s!"fault ({kind.name})"
  | .stepLimitExceeded => "step limit exceeded"

end Verdict

end RobotPuzzle
