import RobotPuzzle.Time.Instant
import RobotPuzzle.Workspace.Basic

/-!
What the block editor reports: blocks created, changed, dragged, moved and deleted, each at an
instant.
-/

namespace RobotPuzzle

/-- Where an event happened. The blocks of the toolbox are never part of the workspace. -/
inductive Source
  | workspace
  | toolbox
deriving DecidableEq, Repr

namespace Source

def all : List Source := [.workspace, .toolbox]

def name : Source → String
  | .workspace => "workspace"
  | .toolbox => "toolbox"

end Source

structure SurfacePoint where
  x : Float
  y : Float

namespace SurfacePoint

def origin : SurfacePoint := ⟨0, 0⟩

def sameAs (point other : SurfacePoint) : Bool := point.x == other.x && point.y == other.y

/-- The straight distance, rounded to three places with halves away from zero. -/
def distanceTo (point other : SurfacePoint) : Float :=
  let dx := point.x - other.x
  let dy := point.y - other.y
  ((dx * dx + dy * dy).sqrt * 1000).round / 1000

end SurfacePoint

inductive Event
  | create (block : BlockSpec) (parent : Option String) (slot : Option Slot) (source : Source)
  | fieldChange (block : String) (type : Option String) (name : String)
      (oldValue newValue : Option String) (source : Source)
  /-- The start or the end of a drag. At its end the parent and slot are those dropped on; the
  move that connects the block is reported after it. -/
  | drag (block : String) (isStart : Bool) (position : SurfacePoint) (groupSize : UInt64)
      (parent : Option String) (slot : Option Slot) (source : Source)
  | delete (block : String) (type : Option String) (position : SurfacePoint) (groupSize : UInt64)
  | move (block : String) (oldParent : Option String) (oldSlot : Option Slot)
      (newParent : Option String) (newSlot : Option Slot) (source : Source)
  | loadFinished

structure TimedEvent where
  time : Instant
  event : Event

end RobotPuzzle
