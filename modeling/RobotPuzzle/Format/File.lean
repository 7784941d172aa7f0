import RobotPuzzle.Format.Record
import RobotPuzzle.Json.Printer
import RobotPuzzle.Json.Reader

/-!
Exercises, recorded events and session records as the texts of files.
-/

namespace RobotPuzzle

/-- The exercise in a file. A member that exercises do not have may hold anything, also what is
unfit. -/
def Exercise.ofText? (text : String) : Option Exercise :=
  (Json.read? Json.fileNesting text).bind Exercise.ofJson?

/-- The events in a file, no part of which may be unfit. -/
def TimedEvent.listOfText? (text : String) : Option (List TimedEvent) :=
  ((Json.read? Json.fileNesting text).filter Json.isFit).bind (Json.list? TimedEvent.ofJson?)

def Record.text (record : Record) : String := record.toJson.pretty 0

end RobotPuzzle
