import RobotPuzzle.Json.Record
import RobotPuzzle.Script.Basic

/-!
The JSON form of programs: an array of instructions, each an object with its operation, its block
and, for a loop, the count and the body.
-/

namespace RobotPuzzle

open Json

namespace Script

def actionName : Action → String
  | .move .forward => "forward"
  | .move .backward => "backward"
  | .move .jumpForward => "jumpForward"
  | .move .turnLeft => "turnLeft"
  | .move .turnRight => "turnRight"
  | .pick => "pick"
  | .putDown => "putDown"

def actions : List Action := Move.all.map .move ++ [.pick, .putDown]

def loopName : String := "repeat"

def operations : List (Option Action) := actions.map some ++ [none]

def operationName : Option Action → String
  | some action => actionName action
  | none => loopName

mutual

def instructionToJson : Instruction → Json
  | .act action block => .obj [("blockId", .str block), ("op", .str (actionName action))]
  | .loop count body block =>
    .obj
      [("blockId", .str block), ("op", .str loopName), ("count", .ofNat count.toNat),
        ("body", .arr (instructionsToJson body))]

def instructionsToJson : List Instruction → List Json
  | [] => []
  | instruction :: rest => instructionToJson instruction :: instructionsToJson rest

end

def toJson (script : Script) : Json := .arr (instructionsToJson script)

/-- One instruction, when `body` reads the program in a loop. An operation is given by its name or
by its place among the operations. -/
def instructionOfJson? (body : Json → Option Script) (json : Json) : Option Instruction := do
  let members ← json.object? ["blockId", "op"]
  let block ← members.required "blockId" str?
  match ← members.required "op" (nameOrPlace? operations operationName) with
  | some action => return .act action block
  | none =>
    let members ← members.unrepeated? ["count", "body"]
    return .loop (← members.required "count" uint32?) (← members.required "body" body) block

def ofJsonWithin? : Nat → Json → Option Script
  | 0, _ => none
  | depth + 1, json => json.list? (instructionOfJson? (ofJsonWithin? depth))

/-- The program of a value. A program is never nested deeper than its value. -/
def ofJson? (json : Json) : Option Script := ofJsonWithin? json.nesting json

end Script

end RobotPuzzle
