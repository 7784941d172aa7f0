import RobotPuzzle.World.Action
import RobotPuzzle.World.Basic

/-!
The rules of one action: what it does to the world and to the log, whether it solved the puzzle,
and how it fails. A move first looks whether its target cell exists, then takes the new pose, then
meets the tile there; picking and putting down change nothing unless they succeed.
-/

namespace RobotPuzzle

/-- Cells travelled along the heading; a negative stride goes backwards and a turn stays. -/
def Move.stride : Move → Int
  | .forward => 1
  | .backward => -1
  | .jumpForward => 2
  | .turnLeft => 0
  | .turnRight => 0

def Move.turn? : Move → Option Turn
  | .turnLeft => some .left
  | .turnRight => some .right
  | _ => none

def Pose.after (pose : Pose) (move : Move) : Pose :=
  match move.turn? with
  | some turn => { pose with heading := pose.heading.rotate turn }
  | none => { pose with position := pose.position.step pose.heading move.stride }

structure Effect where
  world : World
  log : Log
  outcome : Except FaultKind Bool

/-- The fault of a failed action; it carries the log as the action left it. -/
def Effect.fault? (effect : Effect) : Option Fault :=
  match effect.outcome with
  | .ok _ => none
  | .error kind => some ⟨kind, effect.log⟩

namespace World

/-- Moves or turns the robot. It solves the puzzle on a goal tile, once that goal is ready; the
tile underfoot is met after a turn too. -/
def applyMove (move : Move) (block : String) (world : World) (log : Log) : Effect :=
  let pose := world.robot.after move
  match world.tileAt? pose.position with
  | none => ⟨world, (log.push ⟨.move move, block⟩).push ⟨.fallPit, block⟩, .error .outOfBounds⟩
  | some tile =>
    let moved := { world with robot := pose }
    match tile with
    | .wall => ⟨moved, log.push ⟨.blocked move, block⟩, .error .wall⟩
    | .pit => ⟨moved, (log.push ⟨.move move, block⟩).push ⟨.fallPit, block⟩, .error .pit⟩
    | .goal => ⟨moved, log.push ⟨.move move, block⟩, .ok moved.goalReady⟩
    | .waypoint => ⟨moved.setTile pose.position .path, log.push ⟨.move move, block⟩, .ok false⟩
    | _ => ⟨moved, log.push ⟨.move move, block⟩, .ok false⟩

def pick (block : String) (world : World) (log : Log) : Effect :=
  let cell := world.robot.position
  match world.ledger.items.get? cell with
  | none => ⟨world, log, .error .nothingToCollect⟩
  | some left =>
    if left = 0 then ⟨world, log, .error .tooManyCollections⟩
    else
      let ledger :=
        { world.ledger with
          items := world.ledger.items.insert cell (left - 1)
          carried := world.ledger.carried + 1 }
      ⟨{ world with ledger }, log.push ⟨.pick, block⟩, .ok false⟩

/-- Puts one carried item into the container on the robot's cell. The puzzle is solved when as many
items have been put down as there were on the map. -/
def putDown (block : String) (world : World) (log : Log) : Effect :=
  let cell := world.robot.position
  match world.ledger.room.get? cell with
  | none => ⟨world, log, .error .noContainers⟩
  | some left =>
    if left = 0 then ⟨world, log, .error .allFull⟩
    else if world.ledger.carried = 0 then ⟨world, log, .error .nothingToPutDown⟩
    else
      let ledger :=
        { world.ledger with
          room := world.ledger.room.insert cell (left - 1)
          carried := world.ledger.carried - 1
          putDown := world.ledger.putDown + 1 }
      ⟨{ world with ledger }, log.push ⟨.putDown, block⟩, .ok (ledger.putDown == ledger.totalItems)⟩

def act : Action → String → World → Log → Effect
  | .move move => applyMove move
  | .pick => pick
  | .putDown => putDown

end World

end RobotPuzzle
