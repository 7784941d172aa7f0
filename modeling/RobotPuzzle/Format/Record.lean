import RobotPuzzle.Format.Event
import RobotPuzzle.Format.World
import RobotPuzzle.Json.Number
import RobotPuzzle.Session.Basic

/-!
The JSON forms of the session record, of its interaction log and snapshots, and of what a user is
told at the end of an attempt and of an exercise.
-/

namespace RobotPuzzle

open Json

namespace DragRecord

def toMembers (drag : DragRecord) : List (String × Json) :=
  [("blockId", .str drag.block), ("blockType", ofOption .str drag.type),
    ("groupSize", groupSizeToJson drag.groupSize), ("start", drag.start.toJson),
    ("end", drag.finish.toJson), ("startedAt", drag.startedAt.toJson),
    ("endedAt", drag.endedAt.toJson), ("durationMs", .int drag.durationMs),
    ("distance", ofFloat drag.distance), ("priorParent", ofOption .str drag.priorParent),
    ("connectedTo", ofOption .str drag.connectedTo), ("slot", ofOption Slot.toJson drag.slot),
    ("outcome", drag.outcome.toJson), ("disconnected", .bool drag.disconnected)]

def toJson (drag : DragRecord) : Json := .obj drag.toMembers

def memberNames : List String :=
  ["blockId", "blockType", "groupSize", "start", "end", "startedAt", "endedAt", "durationMs",
    "distance", "priorParent", "connectedTo", "slot", "outcome", "disconnected"]

def ofJsonWith? (outcome : Json → Option DragOutcome) (json : Json) : Option DragRecord := do
  let members ← json.record? memberNames 14
  return {
    block := ← members.required "blockId" str?
    type := ← members.optional "blockType" str?
    groupSize := ← members.required "groupSize" uint64?
    start := ← members.required "start" SurfacePoint.ofJson?
    finish := ← members.required "end" SurfacePoint.ofJson?
    startedAt := ← members.required "startedAt" Instant.ofJson?
    endedAt := ← members.required "endedAt" Instant.ofJson?
    durationMs := ← members.required "durationMs" int64?
    distance := ← members.required "distance" float?
    priorParent := ← members.optional "priorParent" str?
    connectedTo := ← members.optional "connectedTo" str?
    slot := ← members.optional "slot" Slot.ofJson?
    outcome := ← members.required "outcome" outcome
    disconnected := ← members.required "disconnected" bool? }

def ofJson? : Json → Option DragRecord := ofJsonWith? DragOutcome.ofJson?

def ofTaggedJson? : Json → Option DragRecord :=
  ofJsonWith? (taggedChoice? DragOutcome.all DragOutcome.name)

end DragRecord

namespace Fingerprint

def toJson (fingerprint : Fingerprint) : Json :=
  .obj [("str", .str fingerprint.text), ("bl", fingerprint.shape.toJson)]

def ofJson? (json : Json) : Option Fingerprint := do
  let members ← json.record? ["str", "bl"] 2
  return { text := ← members.required "str" str?, shape := ← members.required "bl" Shape.ofJson? }

end Fingerprint

namespace Interaction

def toJson : Interaction → Json
  | .create block type time shape =>
    .obj
      [("type", .str "create"), ("blockId", .str block), ("blockType", .str type),
        ("at", time.toJson), ("codeStructure", ofOption Fingerprint.toJson shape)]
  | .field block type fromToolbox name oldValue newValue time =>
    .obj
      [("type", .str "field"), ("blockId", .str block), ("blockType", ofOption .str type),
        ("fromToolbox", .bool fromToolbox), ("name", .str name),
        ("oldValue", ofOption .str oldValue), ("newValue", ofOption .str newValue),
        ("at", time.toJson)]
  | .drag record => .obj (("type", .str "drag") :: record.toMembers)
  | .delete block type groupSize time =>
    .obj
      [("type", .str "blockDeleteNoDrag"), ("blockId", .str block),
        ("blockType", ofOption .str type), ("groupSize", groupSizeToJson groupSize),
        ("at", time.toJson)]
  | .execute time success =>
    .obj [("type", .str "execute"), ("at", time.toJson), ("success", .bool success)]

def ofJson? (json : Json) : Option Interaction := do
  let (tag, json) ← json.tagged? "type"
  match tag with
  | "create" =>
    let members ← json.record? ["blockId", "blockType", "at", "codeStructure"] 4
    return .create
      (← members.required "blockId" str?)
      (← members.required "blockType" str?)
      (← members.required "at" Instant.ofJson?)
      (← members.optional "codeStructure" Fingerprint.ofJson?)
  | "field" =>
    let members ←
      json.record? ["blockId", "blockType", "fromToolbox", "name", "oldValue", "newValue", "at"] 7
    return .field
      (← members.required "blockId" str?)
      (← members.optional "blockType" str?)
      (← members.required "fromToolbox" bool?)
      (← members.required "name" str?)
      (← members.optional "oldValue" str?)
      (← members.optional "newValue" str?)
      (← members.required "at" Instant.ofJson?)
  | "drag" => return .drag (← DragRecord.ofTaggedJson? json)
  | "blockDeleteNoDrag" =>
    let members ← json.record? ["blockId", "blockType", "groupSize", "at"] 4
    return .delete
      (← members.required "blockId" str?)
      (← members.optional "blockType" str?)
      (← members.required "groupSize" uint64?)
      (← members.required "at" Instant.ofJson?)
  | "execute" =>
    let members ← json.record? ["at", "success"] 2
    return .execute
      (← members.required "at" Instant.ofJson?)
      (← members.required "success" bool?)
  | _ => none

end Interaction

namespace Snapshot

def toJson (snapshot : Snapshot) : Json :=
  .obj [("code", snapshot.program.toJson), ("success", .bool snapshot.success)]

def ofJson? (json : Json) : Option Snapshot := do
  let members ← json.record? ["code", "success"] 2
  return {
    program := ← members.required "code" ProgramShape.ofJson?
    success := ← members.required "success" bool? }

end Snapshot

namespace Record

/-- A member name that is an attempt number: a 32-bit number as JSON writes it. -/
def attemptKey? (name : String) : Option Nat := (Json.number? name.toList).bind (nat? UInt32.size)

def toJson (record : Record) : Json :=
  .obj
    [("planningStart", ofOption Instant.toJson record.planningStart),
      ("executionStart", ofOption Instant.toJson record.executionStart),
      ("executionEnd", ofOption Instant.toJson record.executionEnd),
      ("actions", ofList Interaction.toJson record.actions),
      ("attemptActionCounts", ofSortedMap toString ofNat record.attemptActionCounts),
      ("attempt", ofNat record.attempt), ("success", .bool record.success),
      ("numOfFailures", ofNat record.failures), ("usedBlockCount", ofNat record.usedBlocks),
      ("idealBlockCount", ofNat record.idealBlocks.toNat),
      ("codeSnapshots", ofList Snapshot.toJson record.snapshots)]

def memberNames : List String :=
  ["planningStart", "executionStart", "executionEnd", "actions", "attemptActionCounts", "attempt",
    "success", "numOfFailures", "usedBlockCount", "idealBlockCount", "codeSnapshots"]

def ofJson? (json : Json) : Option Record := do
  let members ← json.record? memberNames 11
  return {
    planningStart := ← members.optional "planningStart" Instant.ofJson?
    executionStart := ← members.optional "executionStart" Instant.ofJson?
    executionEnd := ← members.optional "executionEnd" Instant.ofJson?
    actions := ← members.required "actions" (list? Interaction.ofJson?)
    attemptActionCounts :=
      ← members.required "attemptActionCounts" (sortedMap? attemptKey? (nat? UInt64.size))
    attempt := ← members.required "attempt" (nat? UInt32.size)
    success := ← members.required "success" bool?
    failures := ← members.required "numOfFailures" (nat? UInt32.size)
    usedBlocks := ← members.required "usedBlockCount" (nat? UInt64.size)
    idealBlocks := ← members.required "idealBlockCount" uint32?
    snapshots := ← members.required "codeSnapshots" (list? Snapshot.ofJson?) }

end Record

def Summary.toJson (summary : Summary) : Json :=
  .obj
    [("totalTimeMs", .int summary.totalTimeMs), ("attempts", .ofNat summary.attempts),
      ("usedBlocks", .ofNat summary.usedBlocks),
      ("idealBlocks", .ofNat summary.idealBlocks.toNat),
      ("lastProgram", .str summary.lastProgram)]

def Feedback.toJson : Feedback → Json
  | .success => .obj [("type", .str "success")]
  | .failure attempt verdict =>
    .obj
      [("type", .str "failure"), ("attempt", .ofNat attempt), ("verdict", verdict.toJson)]

end RobotPuzzle
