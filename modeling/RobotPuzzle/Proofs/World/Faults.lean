import RobotPuzzle.Proofs.World.Actions
import RobotPuzzle.Proofs.World.Grid

/-!
How an action fails. What stands ahead of the robot or on its cell decides whether it fails and
which fault it is; a refused pick or deposit and a step off the map leave the world as it was, a
wall and a pit have the robot on their cell.
-/

namespace RobotPuzzle

def Deed.isDone : Deed → Bool
  | .move _ | .pick | .putDown => true
  | .blocked _ | .fallPit => false

def Action.marks : Action → FaultKind → List Deed
  | .move tried, .outOfBounds => [.move tried, .fallPit]
  | .move tried, .wall => [.blocked tried]
  | .move tried, .pit => [.move tried, .fallPit]
  | _, _ => []

namespace World

/-- The causes of a fault. No two of them hold at once: a cell has one tile, and hands count only
at a container with room. -/
inductive Fails (world : World) : Action → FaultKind → Prop
  | outside {move}
      (ahead : ∀ tile, ((world.robot.after move).position, tile) ∉ cells world.tiles) :
      Fails world (.move move) .outOfBounds
  | wall {move} (ahead : ((world.robot.after move).position, .wall) ∈ cells world.tiles) :
      Fails world (.move move) .wall
  | pit {move} (ahead : ((world.robot.after move).position, .pit) ∈ cells world.tiles) :
      Fails world (.move move) .pit
  | refused {action kind} (refused : world.Refuses action kind) : Fails world action kind

def afterFault (world : World) : Action → FaultKind → World
  | .move move, .wall => { world with robot := world.robot.after move }
  | .move move, .pit => { world with robot := world.robot.after move }
  | _, _ => world

variable {world after : World} {block : String} {action : Action} {move : Move} {kind : FaultKind}
  {entries : List LogEntry}

theorem ahead?_eq_none_iff : world.ahead? move = none ↔
    ∀ tile, ((world.robot.after move).position, tile) ∉ cells world.tiles := by
  rw [ahead?, Option.eq_none_iff_forall_ne_some]
  exact forall_congr' fun tile => not_congr tileAt?_eq_some_iff

theorem Acts.fails (acts : world.Acts block action after entries (.error kind)) :
    world.Fails action kind ∧ after = world.afterFault action kind ∧
      entries = (action.marks kind).map fun deed => ⟨deed, block⟩ := by
  cases acts with
  | leaves ahead => exact ⟨.outside (ahead?_eq_none_iff.1 ahead), rfl, rfl⟩
  | bumps ahead => exact ⟨.wall (tileAt?_eq_some_iff.1 ahead), rfl, rfl⟩
  | falls ahead => exact ⟨.pit (tileAt?_eq_some_iff.1 ahead), rfl, rfl⟩
  | refuses refused =>
      refine ⟨.refused refused, ?_⟩
      cases refused <;> exact ⟨rfl, rfl⟩

theorem Acts.done {solved : Bool} (acts : world.Acts block action after entries (.ok solved)) :
    ∃ deed, deed.isDone = true ∧ deed.action? = some action ∧ entries = [⟨deed, block⟩] := by
  cases acts with
  | arrives | clears | moves | picks | puts => exact ⟨_, rfl, rfl, rfl⟩

theorem Fails.outcome_eq (fails : world.Fails action kind) (block : String) (log : Log) :
    (act action block world log).outcome = .error kind := by
  cases fails with
  | outside ahead =>
      have found := ahead?_eq_none_iff.2 ahead
      rw [ahead?] at found
      simp only [act, applyMove, found]
  | wall ahead => simp only [act, applyMove, tileAt?_eq_some_iff.2 ahead]
  | pit ahead => simp only [act, applyMove, tileAt?_eq_some_iff.2 ahead]
  | refused refused =>
      cases refused with
      | noPile here | emptyPile here => simp only [act, pick, here, if_true]
      | noContainer here | full here => simp only [act, putDown, here, if_true]
      | emptyHanded here free carries =>
          simp only [act, putDown, here, if_neg free, carries, if_true]

theorem act_fails_iff (action : Action) (block : String) (world : World) (log : Log)
    (kind : FaultKind) :
    (act action block world log).outcome = .error kind ↔ world.Fails action kind := by
  constructor
  · intro failed
    obtain ⟨entries, -, acts⟩ := act_acts action block world log
    rw [failed] at acts
    exact acts.fails.1
  · intro fails
    exact fails.outcome_eq block log

theorem act_succeeds_iff (action : Action) (block : String) (world : World) (log : Log) :
    (∃ solved, (act action block world log).outcome = .ok solved) ↔
      ∀ kind, ¬world.Fails action kind := by
  simp only [← act_fails_iff action block world log]
  cases (act action block world log).outcome with
  | ok solved => simp
  | error kind => simp

/-- What an action comes to: which fault it is and what that leaves behind, or the one entry of a
deed that was done. -/
structure Judged (world : World) (log : Log) (action : Action) (block : String) (effect : Effect) :
    Prop where
  fails_iff : ∀ kind, effect.outcome = .error kind ↔ world.Fails action kind
  succeeds_iff : (∃ solved, effect.outcome = .ok solved) ↔ ∀ kind, ¬world.Fails action kind
  failed : ∀ kind, effect.outcome = .error kind →
    effect.world = world.afterFault action kind ∧
      effect.log.toList = log.toList ++ (action.marks kind).map (⟨·, block⟩) ∧
      effect.fault? = some ⟨kind, effect.log⟩
  succeeded : ∀ solved, effect.outcome = .ok solved →
    effect.fault? = none ∧ ∃ deed, deed.isDone = true ∧ deed.action? = some action ∧
      effect.log.toList = log.toList ++ [⟨deed, block⟩]

/-- Every action of every robot fails for exactly the causes above, and a fault changes no more than
the pose at a wall or a pit. -/
theorem act_judged (action : Action) (block : String) (world : World) (log : Log) :
    world.Judged log action block (act action block world log) where
  fails_iff := act_fails_iff action block world log
  succeeds_iff := act_succeeds_iff action block world log
  failed := by
    intro kind failed
    obtain ⟨entries, logged, acts⟩ := act_acts action block world log
    rw [failed] at acts
    obtain ⟨-, left, rfl⟩ := acts.fails
    refine ⟨left, logged, ?_⟩
    rw [Effect.fault?, failed]
  succeeded := by
    intro solved succeeded
    obtain ⟨entries, logged, acts⟩ := act_acts action block world log
    rw [succeeded] at acts
    obtain ⟨deed, isDone, tells, rfl⟩ := acts.done
    refine ⟨?_, deed, isDone, tells, logged⟩
    rw [Effect.fault?, succeeded]

end World

end RobotPuzzle
