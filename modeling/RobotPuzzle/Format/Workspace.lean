import RobotPuzzle.Json.Record
import RobotPuzzle.Workspace.Shape

/-!
The JSON forms of blocks, of trees of blocks, and of program shapes.
-/

namespace RobotPuzzle

open Json

def Slot.toJson (slot : Slot) : Json := .str slot.name

def Slot.ofJson? (json : Json) : Option Slot := json.str?.map Slot.ofName

def textsToJson (texts : SortedMap String String) : Json := ofSortedMap id .str texts

def textsOfJson? : Json → Option (SortedMap String String) := sortedMap? some str?

namespace BlockSpec

mutual

def toJson : BlockSpec → Json
  | ⟨id, type, fields, children⟩ =>
    .obj
      [("id", .str id), ("type", .str type), ("fields", textsToJson fields),
        ("children", .arr (childrenToJson children))]

def childrenToJson : List (Slot × BlockSpec) → List Json
  | [] => []
  | (slot, child) :: rest =>
    .obj [("slot", slot.toJson), ("block", toJson child)] :: childrenToJson rest

end

def childOfJson? (block : Json → Option BlockSpec) (json : Json) : Option (Slot × BlockSpec) := do
  let members ← json.record? ["slot", "block"] 2
  return (← members.required "slot" Slot.ofJson?, ← members.required "block" block)

def ofJsonWithin? : Nat → Json → Option BlockSpec
  | 0, _ => none
  | depth + 1, json => do
    let members ← json.record? ["id", "type", "fields", "children"] 2
    return {
      id := ← members.required "id" str?
      type := ← members.required "type" str?
      fields := ← members.withDefault "fields" ∅ textsOfJson?
      children := ← members.withDefault "children" [] (list? (childOfJson? (ofJsonWithin? depth))) }

/-- The tree of a value. A tree is never nested deeper than its value. -/
def ofJson? (json : Json) : Option BlockSpec := ofJsonWithin? json.nesting json

end BlockSpec

namespace Block

def toJson (block : Block) : Json :=
  .obj
    [("id", .str block.id), ("type", .str block.type),
      ("children", ofSortedMap Slot.name .str block.children),
      ("fields", textsToJson block.fields), ("parent", ofOption .str block.parent),
      ("top", .bool block.top), ("deleted", .bool block.deleted)]

def ofJson? (json : Json) : Option Block := do
  let members ← json.record? ["id", "type", "children", "fields", "parent", "top", "deleted"] 7
  return {
    id := ← members.required "id" str?
    type := ← members.required "type" str?
    children := ← members.required "children" (sortedMap? (some ∘ Slot.ofName) str?)
    fields := ← members.required "fields" textsOfJson?
    parent := ← members.optional "parent" str?
    top := ← members.required "top" bool?
    deleted := ← members.required "deleted" bool? }

end Block

namespace Shape

mutual

def toJson : Shape → Json
  | ⟨type, name, children⟩ =>
    .obj [("type", .str type), ("name", .str name), ("children", .arr (childrenToJson children))]

def childrenToJson : List (Slot × Shape) → List Json
  | [] => []
  | (slot, child) :: rest =>
    .obj [("nested", slot.toJson), ("block", toJson child)] :: childrenToJson rest

end

def childOfJson? (shape : Json → Option Shape) (json : Json) : Option (Slot × Shape) := do
  let members ← json.record? ["nested", "block"] 2
  return (← members.required "nested" Slot.ofJson?, ← members.required "block" shape)

def ofJsonWithin? : Nat → Json → Option Shape
  | 0, _ => none
  | depth + 1, json => do
    let members ← json.record? ["type", "name", "children"] 3
    return {
      type := ← members.required "type" str?
      name := ← members.required "name" str?
      children := ← members.required "children" (list? (childOfJson? (ofJsonWithin? depth))) }

/-- The shape of a value. A shape is never nested deeper than its value. -/
def ofJson? (json : Json) : Option Shape := ofJsonWithin? json.nesting json

end Shape

namespace ProgramShape

def toJson (program : ProgramShape) : Json :=
  .obj
    [("main", ofOption Shape.toJson program.main),
      ("others", ofList Shape.toJson program.others)]

def ofJson? (json : Json) : Option ProgramShape := do
  let members ← json.record? ["main", "others"] 2
  return {
    main := ← members.optional "main" Shape.ofJson?
    others := ← members.required "others" (list? Shape.ofJson?) }

end ProgramShape

end RobotPuzzle
