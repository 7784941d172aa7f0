import RobotPuzzle.Session.Record

/-!
The figures that a user is shown when an exercise is solved.
-/

namespace RobotPuzzle

structure Summary where
  totalTimeMs : Int
  /-- The failed attempts and the final one. -/
  attempts : Nat
  usedBlocks : Nat
  idealBlocks : UInt32
  /-- The fingerprint of the program at the last attempt. -/
  lastProgram : String
deriving DecidableEq, Repr

namespace Summary

def ofRecord (record : Record) : Summary where
  totalTimeMs := record.planningMs + record.executionMs
  attempts := record.failures + 1
  usedBlocks := record.usedBlocks
  idealBlocks := record.idealBlocks
  lastProgram :=
    ((record.snapshots.getLast?.bind (·.program.main)).map Shape.fingerprint).getD ""

def text (summary : Summary) : String :=
  "\n".intercalate
    [ "***** Console feedback ******",
      s!"User total time was {summary.totalTimeMs}ms",
      s!"User took {summary.attempts} attempts",
      s!"User used {summary.usedBlocks}/{summary.idealBlocks} blocks",
      s!"Last program: {summary.lastProgram}" ]

end Summary

end RobotPuzzle
