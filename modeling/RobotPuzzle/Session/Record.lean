import RobotPuzzle.Session.Drag
import RobotPuzzle.Workspace.Fingerprint

/-!
The record of one exercise session: when planning and execution began and ended, every interaction
in order, and the attempts with the program that each one ran. Attempts are numbered without a
bound; the numbers of fewer than 4294967295 attempts fit into 32 bits.
-/

namespace RobotPuzzle

structure Fingerprint where
  text : String
  shape : Shape

def Fingerprint.ofShape (shape : Shape) : Fingerprint := ⟨shape.fingerprint, shape⟩

inductive Interaction
  /-- A new block; its shape is kept if it came with blocks below it. -/
  | create (block type : String) (time : Instant) (shape : Option Fingerprint)
  | field (block : String) (type : Option String) (fromToolbox : Bool) (name : String)
      (oldValue newValue : Option String) (time : Instant)
  | drag (record : DragRecord)
  /-- A deletion while no drag of the block was open. -/
  | delete (block : String) (type : Option String) (groupSize : UInt64) (time : Instant)
  | execute (time : Instant) (success : Bool)

structure Snapshot where
  program : ProgramShape
  success : Bool

structure Record where
  planningStart : Option Instant
  executionStart : Option Instant
  executionEnd : Option Instant
  /-- The interaction log, oldest entry first. -/
  actions : List Interaction
  /-- The length of the log at the end of each attempt, by the number of the attempt. -/
  attemptActionCounts : SortedMap Nat Nat
  attempt : Nat
  success : Bool
  failures : Nat
  usedBlocks : Nat
  idealBlocks : UInt32
  snapshots : List Snapshot

namespace Record

def start (idealBlocks : UInt32) : Record where
  planningStart := none
  executionStart := none
  executionEnd := none
  actions := []
  attemptActionCounts := ∅
  attempt := 1
  success := false
  failures := 0
  usedBlocks := 0
  idealBlocks
  snapshots := []

/-- Milliseconds between two instants, and none unless both are known. -/
def span (start finish : Option Instant) : Int :=
  match start, finish with
  | some start, some finish => finish.millisSince start
  | _, _ => 0

def planningMs (record : Record) : Int := span record.planningStart record.executionStart

def executionMs (record : Record) : Int := span record.executionStart record.executionEnd

def log (record : Record) (interaction : Interaction) : Record :=
  { record with actions := record.actions ++ [interaction] }

def book (record : Record) (program : ProgramShape) (success : Bool) (time : Instant) : Record :=
  let actions := record.actions ++ [.execute time success]
  { record with
    actions
    attemptActionCounts := record.attemptActionCounts.insert record.attempt actions.length
    attempt := record.attempt + 1
    success := record.success || success
    failures := if success then record.failures else record.failures + 1
    snapshots := record.snapshots ++ [⟨program, success⟩] }

end Record

end RobotPuzzle
