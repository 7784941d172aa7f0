import RobotPuzzle.Workspace.Walk

/-!
The shape of a program: the live tree below a block with abbreviated types, rebuilt from the
workspace. A block that is reached a second time is left out there, and the blocks in a block's
other slots count as reached before the next block.
-/

namespace RobotPuzzle

structure Shape where
  /-- The abbreviated type, or the type itself when it has no abbreviation. -/
  type : String
  /-- The abbreviation with the number of rounds of a loop. -/
  name : String
  children : List (Slot × Shape)

def Shape.child? (shape : Shape) (slot : Slot) : Option Shape := shape.children.lookup slot

/-- The shape of a whole workspace: the tree of the first entry and the trees that stand alone. -/
structure ProgramShape where
  main : Option Shape
  others : List Shape

namespace Block

def shortType (block : Block) : String := block.kind.shortName?.getD block.type

/-- The name of a block in a shape: a loop shows its field as it stands, or `0` without one. -/
def shapeName (block : Block) : String :=
  if block.kind = .loop then
    block.shortType ++ "(" ++ (block.fields.get? timesField).getD "0" ++ ")"
  else block.shortType

end Block

/-- Puts the shape of the next block into its place among the others, which are in slot order. -/
def Shape.withNext (children : List (Slot × Shape)) (next : Option Shape) : List (Slot × Shape) :=
  match next with
  | none => children
  | some shape =>
    children.takeWhile (fun entry => entry.1.rank < Slot.next.rank) ++
      (.next, shape) :: children.dropWhile fun entry => entry.1.rank < Slot.next.rank

namespace Workspace

def shapesOf (build : List String → String → Option Shape × List String) (seen : List String) :
    List (Slot × String) → List (Slot × Shape) × List String
  | [] => ([], seen)
  | (slot, id) :: rest =>
    let (shape, seen) := build seen id
    let (shapes, seen) := shapesOf build seen rest
    match shape with
    | none => (shapes, seen)
    | some shape => ((slot, shape) :: shapes, seen)

/-- The shape below a block and the ids seen after it. Each level has seen one block more than the
level above it, so a depth of the number of blocks is never used up. -/
def shapeFrom (workspace : Workspace) : Nat → List String → String → Option Shape × List String
  | 0, seen, _ => (none, seen)
  | depth + 1, seen, id =>
    match workspace.live? id with
    | none => (none, seen)
    | some block =>
      if id ∈ seen then (none, seen)
      else
        let inner := block.children.entries.filter fun entry => entry.1 != .next
        let (children, seen) := shapesOf (workspace.shapeFrom depth) (id :: seen) inner
        let (next, seen) :=
          match block.children.get? .next with
          | none => (none, seen)
          | some next => workspace.shapeFrom depth seen next
        (some ⟨block.shortType, block.shapeName, Shape.withNext children next⟩, seen)

def shape? (workspace : Workspace) (id : String) : Option Shape :=
  (workspace.shapeFrom workspace.blocks.length [] id).1

def programShape (workspace : Workspace) : ProgramShape where
  main := workspace.entries.head?.bind fun entry => workspace.shape? entry.id
  others := workspace.loose.filterMap fun block => workspace.shape? block.id

end Workspace

end RobotPuzzle
