import RobotPuzzle.Json.Record
import RobotPuzzle.Script.Basic
import RobotPuzzle.World.Tile

/-!
The JSON forms of tiles, places, headings, moves, log entries, faults and verdicts.
-/

namespace RobotPuzzle

open Json

def Tile.toJson (tile : Tile) : Json := .str tile.code

def Tile.ofJson? (json : Json) : Option Tile := json.str?.bind Tile.ofCode?

def Heading.toJson (heading : Heading) : Json :=
  .obj [("dRow", .int heading.dRow), ("dCol", .int heading.dCol)]

def Heading.ofJson? (json : Json) : Option Heading := do
  let members ← json.record? ["dRow", "dCol"] 2
  return { dRow := ← members.required "dRow" int32?, dCol := ← members.required "dCol" int32? }

def Position.toJson (position : Position) : Json :=
  .obj [("row", .int position.row), ("col", .int position.col)]

def Position.ofJson? (json : Json) : Option Position := do
  let members ← json.record? ["row", "col"] 2
  return { row := ← members.required "row" int32?, col := ← members.required "col" int32? }

namespace Turn

def all : List Turn := [.left, .right]

def name : Turn → String
  | .left => "left"
  | .right => "right"

def toJson (turn : Turn) : Json := .str turn.name

def ofJson? : Json → Option Turn := choice? all name

end Turn

namespace Move

def name : Move → String
  | .forward => "forward"
  | .backward => "backward"
  | .jumpForward => "jumpForward"
  | .turnLeft => "turnLeft"
  | .turnRight => "turnRight"

def toJson (move : Move) : Json := .str move.name

def ofJson? : Json → Option Move := choice? all name

end Move

def Deed.toJson (deed : Deed) : Json := .str deed.code

def Deed.ofJson? (json : Json) : Option Deed := json.str?.bind Deed.ofCode?

def LogEntry.toJson (entry : LogEntry) : Json :=
  .obj [("action", entry.deed.toJson), ("blockId", .str entry.block)]

def LogEntry.ofJson? (json : Json) : Option LogEntry := do
  let members ← json.record? ["action", "blockId"] 2
  return {
    deed := ← members.required "action" Deed.ofJson?
    block := ← members.required "blockId" str? }

def FaultKind.toJson (kind : FaultKind) : Json := .str kind.name

def FaultKind.ofJson? : Json → Option FaultKind := choice? FaultKind.all FaultKind.name

namespace Verdict

def toJson : Verdict → Json
  | .success => .obj [("status", .str "success")]
  | .incomplete => .obj [("status", .str "incomplete")]
  | .fault kind => .obj [("status", .str "fault"), ("kind", kind.toJson)]
  | .stepLimitExceeded => .obj [("status", .str "stepLimitExceeded")]

/-- A verdict without a fault has no kind, or `null` in its place. -/
def ofJson? (json : Json) : Option Verdict := do
  let members ← json.record? ["status", "kind"] 2
  let status ← members.required "status" name?
  let readKind := taggedChoice? FaultKind.all FaultKind.name
  if status = "fault" then return .fault (← members.required "kind" readKind)
  let kind ← members.optional "kind" readKind
  guard kind.isNone
  match status with
  | "success" => return .success
  | "incomplete" => return .incomplete
  | "stepLimitExceeded" => return .stepLimitExceeded
  | _ => none

end Verdict

end RobotPuzzle
