import RobotPuzzle.Format.Workspace
import RobotPuzzle.Session.Drag
import RobotPuzzle.Session.Exercise
import RobotPuzzle.Time.Rfc3339

/-!
The JSON forms of instants, places on the surface, editor events, open drags and exercises.
-/

namespace RobotPuzzle

open Json

def Instant.toJson (instant : Instant) : Json := .str instant.text

def Instant.ofJson? (json : Json) : Option Instant :=
  json.str?.bind fun text => Time.instant? text.toList

def SurfacePoint.toJson (point : SurfacePoint) : Json :=
  .obj [("x", ofFloat point.x), ("y", ofFloat point.y)]

def SurfacePoint.ofJson? (json : Json) : Option SurfacePoint := do
  let members ← json.record? ["x", "y"] 2
  return { x := ← members.required "x" float?, y := ← members.required "y" float? }

def Source.toJson (source : Source) : Json := .str source.name

def Source.ofJson? : Json → Option Source := taggedChoice? Source.all Source.name

def groupSizeToJson (size : UInt64) : Json := .ofNat size.toNat

namespace Event

def tags : List String := ["create", "field-change", "drag", "delete", "move", "load-finished"]

def toMembers : Event → List (String × Json)
  | .create block parent slot source =>
    [("type", .str "create"), ("block", block.toJson), ("parentId", ofOption .str parent),
      ("inputName", ofOption Slot.toJson slot), ("source", source.toJson)]
  | .fieldChange block type name oldValue newValue source =>
    [("type", .str "field-change"), ("blockId", .str block), ("blockType", ofOption .str type),
      ("name", .str name), ("oldValue", ofOption .str oldValue),
      ("newValue", ofOption .str newValue), ("source", source.toJson)]
  | .drag block isStart position groupSize parent slot source =>
    [("type", .str "drag"), ("blockId", .str block), ("isDragStart", .bool isStart),
      ("position", position.toJson), ("groupSize", groupSizeToJson groupSize),
      ("parentId", ofOption .str parent), ("inputName", ofOption Slot.toJson slot),
      ("source", source.toJson)]
  | .delete block type position groupSize =>
    [("type", .str "delete"), ("blockId", .str block), ("blockType", ofOption .str type),
      ("position", position.toJson), ("groupSize", groupSizeToJson groupSize)]
  | .move block oldParent oldSlot newParent newSlot source =>
    [("type", .str "move"), ("blockId", .str block), ("oldParentId", ofOption .str oldParent),
      ("oldInputName", ofOption Slot.toJson oldSlot), ("newParentId", ofOption .str newParent),
      ("newInputName", ofOption Slot.toJson newSlot), ("source", source.toJson)]
  | .loadFinished => [("type", .str "load-finished")]

def ofMembers? (tag : String) (members : Members) : Option Event :=
  match tag with
  | "create" => do
    let members ← members.unrepeated? ["block", "parentId", "inputName", "source"]
    return .create
      (← members.required "block" BlockSpec.ofJson?)
      (← members.optional "parentId" str?)
      (← members.optional "inputName" Slot.ofJson?)
      (← members.withDefault "source" .workspace Source.ofJson?)
  | "field-change" => do
    let members ←
      members.unrepeated? ["blockId", "blockType", "name", "oldValue", "newValue", "source"]
    return .fieldChange
      (← members.required "blockId" str?)
      (← members.optional "blockType" str?)
      (← members.required "name" str?)
      (← members.optional "oldValue" str?)
      (← members.optional "newValue" str?)
      (← members.withDefault "source" .workspace Source.ofJson?)
  | "drag" => do
    let members ←
      members.unrepeated?
        ["blockId", "isDragStart", "position", "groupSize", "parentId", "inputName", "source"]
    return .drag
      (← members.required "blockId" str?)
      (← members.required "isDragStart" bool?)
      (← members.required "position" SurfacePoint.ofJson?)
      (← members.withDefault "groupSize" 1 uint64?)
      (← members.optional "parentId" str?)
      (← members.optional "inputName" Slot.ofJson?)
      (← members.withDefault "source" .workspace Source.ofJson?)
  | "delete" => do
    let members ← members.unrepeated? ["blockId", "blockType", "position", "groupSize"]
    return .delete
      (← members.required "blockId" str?)
      (← members.optional "blockType" str?)
      (← members.withDefault "position" .origin SurfacePoint.ofJson?)
      (← members.withDefault "groupSize" 1 uint64?)
  | "move" => do
    let members ←
      members.unrepeated?
        ["blockId", "oldParentId", "oldInputName", "newParentId", "newInputName", "source"]
    return .move
      (← members.required "blockId" str?)
      (← members.optional "oldParentId" str?)
      (← members.optional "oldInputName" Slot.ofJson?)
      (← members.optional "newParentId" str?)
      (← members.optional "newInputName" Slot.ofJson?)
      (← members.withDefault "source" .workspace Source.ofJson?)
  | "load-finished" => some .loadFinished
  | _ => none

end Event

namespace TimedEvent

def toJson (event : TimedEvent) : Json :=
  .obj (("at", event.time.toJson) :: event.event.toMembers)

/-- The kind of an event is given by its name or by its place among the kinds. -/
def ofJson? (json : Json) : Option TimedEvent := do
  let members ← json.object? ["at", "type"]
  let time ← members.required "at" Instant.ofJson?
  let tag ← members.required "type" (nameOrPlace? Event.tags id)
  return ⟨time, ← Event.ofMembers? tag members⟩

end TimedEvent

def DragOutcome.toJson (outcome : DragOutcome) : Json := .str outcome.name

def DragOutcome.ofJson? : Json → Option DragOutcome := choice? DragOutcome.all DragOutcome.name

namespace PendingDrag

def toJson (drag : PendingDrag) : Json :=
  .obj
    [("blockId", .str drag.block), ("blockType", ofOption .str drag.type),
      ("groupSize", groupSizeToJson drag.groupSize), ("start", drag.start.toJson),
      ("startedAt", drag.startedAt.toJson), ("priorParent", ofOption .str drag.priorParent)]

def ofJson? (json : Json) : Option PendingDrag := do
  let members ←
    json.record? ["blockId", "blockType", "groupSize", "start", "startedAt", "priorParent"] 6
  return {
    block := ← members.required "blockId" str?
    type := ← members.optional "blockType" str?
    groupSize := ← members.required "groupSize" uint64?
    start := ← members.required "start" SurfacePoint.ofJson?
    startedAt := ← members.required "startedAt" Instant.ofJson?
    priorParent := ← members.optional "priorParent" str? }

end PendingDrag

namespace Exercise

def toJson (exercise : Exercise) : Json :=
  .obj
    [("url", .str exercise.url), ("instructions", ofList .str exercise.instructions),
      ("map", ofList (ofList .str) exercise.map), ("htmlInstr", ofOption .str exercise.htmlInstr),
      ("idealBlocks", .ofNat exercise.idealBlocks.toNat),
      ("defaultProgram", ofOption BlockSpec.toJson exercise.defaultProgram)]

def ofJson? (json : Json) : Option Exercise := do
  let members ←
    json.record? ["url", "instructions", "map", "htmlInstr", "idealBlocks", "defaultProgram"] 5
  return {
    url := ← members.required "url" str?
    instructions := ← members.required "instructions" (list? str?)
    map := ← members.required "map" (list? (list? str?))
    htmlInstr := ← members.optional "htmlInstr" str?
    idealBlocks := ← members.required "idealBlocks" uint32?
    defaultProgram := ← members.optional "defaultProgram" BlockSpec.ofJson? }

end Exercise

end RobotPuzzle
