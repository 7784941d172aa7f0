import RobotPuzzle.Session.Event

/-!
Drags of blocks: open from their start until the block is dropped somewhere else or deleted, then
a record of where the block went.
-/

namespace RobotPuzzle

inductive DragOutcome
  /-- Back on the parent it was dragged from. -/
  | reconnected
  | reparented
  /-- From standing alone onto a parent. -/
  | connected
  | disconnected
  /-- Alone before and after. -/
  | moved
  /-- Deleted while it was dragged. -/
  | deleted
deriving DecidableEq, Repr

namespace DragOutcome

def all : List DragOutcome :=
  [.reconnected, .reparented, .connected, .disconnected, .moved, .deleted]

def name : DragOutcome → String
  | .reconnected => "reconnected"
  | .reparented => "reparented"
  | .connected => "connected"
  | .disconnected => "disconnected"
  | .moved => "moved"
  | .deleted => "deleted"

def classify (before after : Option String) : DragOutcome :=
  match before, after with
  | some old, some new => if old = new then .reconnected else .reparented
  | none, some _ => .connected
  | some _, none => .disconnected
  | none, none => .moved

end DragOutcome

structure PendingDrag where
  block : String
  type : Option String
  groupSize : UInt64
  start : SurfacePoint
  startedAt : Instant
  priorParent : Option String

structure DragRecord where
  block : String
  type : Option String
  groupSize : UInt64
  start : SurfacePoint
  finish : SurfacePoint
  startedAt : Instant
  endedAt : Instant
  durationMs : Int
  distance : Float
  priorParent : Option String
  connectedTo : Option String
  slot : Option Slot
  outcome : DragOutcome
  /-- The block left the parent it had when the drag began. -/
  disconnected : Bool

def PendingDrag.close (pending : PendingDrag) (place : SurfacePoint) (time : Instant)
    (connectedTo : Option String) (slot : Option Slot) (outcome : DragOutcome) : DragRecord where
  block := pending.block
  type := pending.type
  groupSize := pending.groupSize
  start := pending.start
  finish := place
  startedAt := pending.startedAt
  endedAt := time
  durationMs := time.millisSince pending.startedAt
  distance := pending.start.distanceTo place
  priorParent := pending.priorParent
  connectedTo
  slot
  outcome
  disconnected :=
    match outcome with
    | .disconnected => true
    | .deleted => pending.priorParent.isSome
    | _ => false

end RobotPuzzle
