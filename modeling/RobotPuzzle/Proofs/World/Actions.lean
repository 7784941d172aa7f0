import RobotPuzzle.World.Rules

/-! Everything that one action can do: the world after it, its log entries and its outcome. -/

namespace RobotPuzzle

/-- The action behind a deed. A fall is the end of the move logged before it. -/
def Deed.action? : Deed → Option Action
  | .move made => some (.move made)
  | .blocked tried => some (.move tried)
  | .fallPit => none
  | .pick => some .pick
  | .putDown => some .putDown

namespace World

def ahead? (world : World) (move : Move) : Option Tile :=
  world.tileAt? (world.robot.after move).position

def moved (world : World) (move : Move) : World :=
  { world with robot := world.robot.after move }

inductive Refuses (world : World) : Action → FaultKind → Prop
  | noPile (here : world.ledger.items.get? world.robot.position = none) :
      Refuses world .pick .nothingToCollect
  | emptyPile (here : world.ledger.items.get? world.robot.position = some 0) :
      Refuses world .pick .tooManyCollections
  | noContainer (here : world.ledger.room.get? world.robot.position = none) :
      Refuses world .putDown .noContainers
  | full (here : world.ledger.room.get? world.robot.position = some 0) :
      Refuses world .putDown .allFull
  | emptyHanded {left} (here : world.ledger.room.get? world.robot.position = some left)
      (free : left ≠ 0) (carries : world.ledger.carried = 0) :
      Refuses world .putDown .nothingToPutDown

inductive Acts (world : World) (block : String) :
    Action → World → List LogEntry → Except FaultKind Bool → Prop
  | leaves {move} (ahead : world.ahead? move = none) :
      Acts world block (.move move) world [⟨.move move, block⟩, ⟨.fallPit, block⟩]
        (.error .outOfBounds)
  | bumps {move} (ahead : world.ahead? move = some .wall) :
      Acts world block (.move move) (world.moved move) [⟨.blocked move, block⟩] (.error .wall)
  | falls {move} (ahead : world.ahead? move = some .pit) :
      Acts world block (.move move) (world.moved move) [⟨.move move, block⟩, ⟨.fallPit, block⟩]
        (.error .pit)
  | arrives {move} (ahead : world.ahead? move = some .goal) :
      Acts world block (.move move) (world.moved move) [⟨.move move, block⟩]
        (.ok (world.moved move).goalReady)
  | clears {move} (ahead : world.ahead? move = some .waypoint) :
      Acts world block (.move move)
        ((world.moved move).setTile (world.robot.after move).position .path)
        [⟨.move move, block⟩] (.ok false)
  | moves {move tile} (ahead : world.ahead? move = some tile)
      (plain : tile ∉ [.wall, .pit, .goal, .waypoint]) :
      Acts world block (.move move) (world.moved move) [⟨.move move, block⟩] (.ok false)
  | picks {left} (here : world.ledger.items.get? world.robot.position = some left)
      (filled : left ≠ 0) :
      Acts world block .pick
        { world with
          ledger :=
            { world.ledger with
              items := world.ledger.items.insert world.robot.position (left - 1)
              carried := world.ledger.carried + 1 } }
        [⟨.pick, block⟩] (.ok false)
  | puts {left} (here : world.ledger.room.get? world.robot.position = some left)
      (free : left ≠ 0) (carries : world.ledger.carried ≠ 0) :
      Acts world block .putDown
        { world with
          ledger :=
            { world.ledger with
              room := world.ledger.room.insert world.robot.position (left - 1)
              carried := world.ledger.carried - 1
              putDown := world.ledger.putDown + 1 } }
        [⟨.putDown, block⟩] (.ok (world.ledger.putDown + 1 == world.ledger.totalItems))
  | refuses {action kind} (refused : world.Refuses action kind) :
      Acts world block action world [] (.error kind)

theorem applyMove_acts (move : Move) (block : String) (world : World) (log : Log) :
    ∃ entries, (world.applyMove move block log).log.toList = log.toList ++ entries ∧
      world.Acts block (.move move) (world.applyMove move block log).world entries
        (world.applyMove move block log).outcome := by
  simp only [applyMove]
  split
  next ahead => exact ⟨_, by simp, .leaves ahead⟩
  next tile ahead =>
    split
    next => exact ⟨_, by simp, .bumps ahead⟩
    next => exact ⟨_, by simp, .falls ahead⟩
    next => exact ⟨_, by simp, .arrives ahead⟩
    next => exact ⟨_, by simp, .clears ahead⟩
    next noWall noPit noGoal noWaypoint =>
      refine ⟨_, by simp, .moves ahead ?_⟩
      simp only [List.mem_cons, List.not_mem_nil, or_false, not_or]
      exact ⟨noWall, noPit, noGoal, noWaypoint⟩

theorem pick_acts (block : String) (world : World) (log : Log) :
    ∃ entries, (world.pick block log).log.toList = log.toList ++ entries ∧
      world.Acts block .pick (world.pick block log).world entries
        (world.pick block log).outcome := by
  simp only [pick]
  split
  next here => exact ⟨[], by simp, .refuses (.noPile here)⟩
  next left here =>
    split
    next none =>
      rw [none] at here
      exact ⟨[], by simp, .refuses (.emptyPile here)⟩
    next filled => exact ⟨_, by simp, .picks here filled⟩

theorem putDown_acts (block : String) (world : World) (log : Log) :
    ∃ entries, (world.putDown block log).log.toList = log.toList ++ entries ∧
      world.Acts block .putDown (world.putDown block log).world entries
        (world.putDown block log).outcome := by
  simp only [putDown]
  split
  next here => exact ⟨[], by simp, .refuses (.noContainer here)⟩
  next left here =>
    split
    next none =>
      rw [none] at here
      exact ⟨[], by simp, .refuses (.full here)⟩
    next free =>
      split
      next carries => exact ⟨[], by simp, .refuses (.emptyHanded here free carries)⟩
      next carries => exact ⟨_, by simp, .puts here free carries⟩

theorem act_acts (action : Action) (block : String) (world : World) (log : Log) :
    ∃ entries, (act action block world log).log.toList = log.toList ++ entries ∧
      world.Acts block action (act action block world log).world entries
        (act action block world log).outcome := by
  cases action with
  | move move => exact applyMove_acts move block world log
  | pick => exact pick_acts block world log
  | putDown => exact putDown_acts block world log

end World

end RobotPuzzle
