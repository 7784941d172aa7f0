import RobotPuzzle.Proofs.World.Faults
import RobotPuzzle.Proofs.World.Trail

/-!
The way back. A walk of steps and turns that met no fault can be taken back move by move, the last
one first: no cell on it has become a wall or a pit, so the robot comes back to where it set out.
-/

namespace RobotPuzzle

/-- The move that takes another one back. A jump has none: the robot cannot jump backwards. -/
def Move.opposite? : Move → Option Move
  | .forward => some .backward
  | .backward => some .forward
  | .jumpForward => none
  | .turnLeft => some .turnRight
  | .turnRight => some .turnLeft

theorem Pose.after_opposite {move opposite : Move} (found : move.opposite? = some opposite)
    (pose : Pose) : (pose.after move).after opposite = pose := by
  obtain ⟨position, heading⟩ := pose
  cases move with
  | forward =>
      cases found
      exact congrArg (Pose.mk · heading) (position.step_step_neg heading 1)
  | backward =>
      cases found
      exact congrArg (Pose.mk · heading) (position.step_step_neg heading (-1))
  | jumpForward => cases found
  | turnLeft =>
      cases found
      exact congrArg (Pose.mk position) (heading.rotate_opposite .left)
  | turnRight =>
      cases found
      exact congrArg (Pose.mk position) (heading.rotate_opposite .right)

namespace World

def Firm (world : World) (position : Position) : Prop :=
  ∃ tile, world.tileAt? position = some tile ∧ tile ≠ .wall ∧ tile ≠ .pit

def Succeeds (world : World) : List Call → Prop
  | [] => True
  | call :: rest =>
    (∃ solved, (act call.action call.block world call.log).outcome = .ok solved) ∧
      (world.after call).Succeeds rest

def Call.Undoes (undo call : Call) : Prop :=
  ∃ move opposite, call.action = .move move ∧ move.opposite? = some opposite ∧
    undo.action = .move opposite

structure Alike (start world : World) : Prop where
  ledger : world.ledger = start.ledger
  firm : ∀ position, world.Firm position ↔ start.Firm position

variable {start before next world : World} {block : String} {move : Move}
  {entries : List LogEntry} {solved : Bool}

theorem Alike.refl (world : World) : world.Alike world := ⟨rfl, fun _ => Iff.rfl⟩

theorem Alike.trans (first : start.Alike before) (second : before.Alike next) : start.Alike next :=
  ⟨second.ledger.trans first.ledger, fun position =>
    (second.firm position).trans (first.firm position)⟩

theorem Treads.firm_iff (treads : before.Treads next) (position : Position) :
    next.Firm position ↔ before.Firm position := by
  cases treads with
  | stays robot tiles => simp only [Firm, tileAt?, tiles]
  | moves ahead robot widths tiles =>
      simp only [Firm, tiles]
      cases before.tileAt? position with
      | none => simp
      | some tile => by_cases here : position = next.robot.position <;> cases tile <;>
          simp [here, Tile.trodden]

theorem firm_ahead_iff : world.Firm (world.robot.after move).position ↔
    ∀ kind, ¬world.Fails (.move move) kind := by
  constructor
  · rintro ⟨tile, found, noWall, noPit⟩ kind fails
    cases fails with
    | outside ahead => exact ahead tile (tileAt?_eq_some_iff.1 found)
    | wall ahead =>
        have same := found.symm.trans (tileAt?_eq_some_iff.2 ahead)
        exact noWall (Option.some.inj same)
    | pit ahead =>
        have same := found.symm.trans (tileAt?_eq_some_iff.2 ahead)
        exact noPit (Option.some.inj same)
    | refused refused => cases refused
  · intro never
    cases found : world.tileAt? (world.robot.after move).position with
    | none => exact absurd (.outside (ahead?_eq_none_iff.1 found)) (never _)
    | some tile =>
        refine ⟨tile, found, ?_, ?_⟩
        · rintro rfl
          exact never _ (.wall (tileAt?_eq_some_iff.1 found))
        · rintro rfl
          exact never _ (.pit (tileAt?_eq_some_iff.1 found))

theorem Acts.robot_eq (acts : world.Acts block (.move move) next entries (.ok solved)) :
    next.robot = world.robot.after move := by
  cases acts with
  | arrives | moves => rfl
  | clears => exact setTile_robot _ _ _

theorem after_of_firm {call : Call} (moves : call.action = .move move)
    (firm : world.Firm (world.robot.after move).position) :
    (∃ solved, (act call.action call.block world call.log).outcome = .ok solved) ∧
      (world.after call).robot = world.robot.after move ∧ world.Alike (world.after call) := by
  obtain ⟨solved, succeeded⟩ :=
    (act_succeeds_iff call.action call.block world call.log).2 (moves ▸ firm_ahead_iff.1 firm)
  obtain ⟨entries, -, acts⟩ := act_acts call.action call.block world call.log
  have alike : world.Alike (world.after call) := by
    refine ⟨?_, acts.treads.firm_iff⟩
    rw [World.after, moves]
    exact (applyMove_books_nothing move call.block world call.log).1
  rw [succeeded, moves] at acts
  refine ⟨⟨solved, succeeded⟩, ?_, alike⟩
  rw [World.after, moves]
  exact acts.robot_eq

theorem afterAll_append (world : World) (calls more : List Call) :
    world.afterAll (calls ++ more) = (world.afterAll calls).afterAll more :=
  List.foldl_append

theorem succeeds_append (world : World) (calls more : List Call) :
    world.Succeeds (calls ++ more) ↔
      world.Succeeds calls ∧ (world.afterAll calls).Succeeds more := by
  induction calls generalizing world with
  | nil => simp [Succeeds, afterAll]
  | cons call rest ih =>
      simp only [List.cons_append, Succeeds, ih, and_assoc]
      rfl

theorem succeeds_undo {undo calls : List Call} (undoes : List.Forall₂ Call.Undoes undo calls)
    (firm : world.Firm world.robot.position) (succeeds : world.Succeeds calls) :
    (world.afterAll calls).Succeeds undo.reverse ∧
      ((world.afterAll calls).afterAll undo.reverse).robot = world.robot ∧
      world.Alike ((world.afterAll calls).afterAll undo.reverse) := by
  induction undoes generalizing world with
  | nil => exact ⟨trivial, rfl, .refl world⟩
  | @cons back call backs rest undoes _ ih =>
      obtain ⟨move, opposite, moves, found, backMoves⟩ := undoes
      obtain ⟨first, later⟩ := succeeds
      rw [act_succeeds_iff, moves] at first
      obtain ⟨-, robot, alike⟩ := after_of_firm moves (firm_ahead_iff.2 first)
      have standing : (world.after call).Firm (world.after call).robot.position := by
        rw [robot, alike.firm]
        exact firm_ahead_iff.2 first
      obtain ⟨returns, home, homeAlike⟩ := ih standing later
      -- Behind all the other moves, the last one back starts where the first one led.
      have near := alike.trans homeAlike
      have target : (((world.after call).afterAll rest).afterAll backs.reverse).robot.after
          opposite = world.robot := by
        rw [home, robot, Pose.after_opposite found]
      obtain ⟨last, lastRobot, lastAlike⟩ :=
        after_of_firm backMoves (by rw [target, near.firm]; exact firm)
      rw [List.reverse_cons, succeeds_append, afterAll_append]
      exact ⟨⟨returns, last, trivial⟩, lastRobot.trans target, near.trans lastAlike⟩

/-- From a cell on which the robot can stand, every walk of steps and turns without a fault can be
undone without one; the robot is then where it was and faces as it did, and the ledger is that of
the start. -/
theorem walk_back {undo calls : List Call} (firm : world.Firm world.robot.position)
    (succeeds : world.Succeeds calls) (undoes : List.Forall₂ Call.Undoes undo calls) :
    (world.afterAll calls).Succeeds undo.reverse ∧
      ((world.afterAll calls).afterAll undo.reverse).robot = world.robot ∧
      ((world.afterAll calls).afterAll undo.reverse).ledger = world.ledger := by
  obtain ⟨returns, home, alike⟩ := succeeds_undo undoes firm succeeds
  exact ⟨returns, home, alike.ledger⟩

def crossingWalk : List Call :=
  [⟨.move .forward, "a", #[]⟩, ⟨.move .turnRight, "b", #[]⟩, ⟨.move .forward, "c", #[]⟩]

def crossingRetreat : List Call :=
  [⟨.move .backward, "x", #[⟨.pick, "w"⟩]⟩, ⟨.move .turnLeft, "y", #[]⟩,
    ⟨.move .backward, "z", #[]⟩]

theorem walk_back_crossing :
    crossing.Firm crossing.robot.position ∧ crossing.Succeeds crossingWalk ∧
      List.Forall₂ Call.Undoes crossingRetreat crossingWalk ∧
      (crossing.afterAll crossingWalk).robot = ⟨⟨1, 1⟩, .down⟩ ∧
      (crossing.afterAll crossingWalk).Succeeds crossingRetreat.reverse ∧
      ((crossing.afterAll crossingWalk).afterAll crossingRetreat.reverse).robot =
        crossing.robot ∧
      ((crossing.afterAll crossingWalk).afterAll crossingRetreat.reverse).ledger =
        crossing.ledger := by
  have firm : crossing.Firm crossing.robot.position :=
    ⟨.start .right, by decide, by decide, by decide⟩
  have succeeds : crossing.Succeeds crossingWalk :=
    ⟨⟨false, by decide⟩, ⟨false, by decide⟩, ⟨false, by decide⟩, trivial⟩
  have undoes : List.Forall₂ Call.Undoes crossingRetreat crossingWalk :=
    .cons ⟨_, _, rfl, rfl, rfl⟩ (.cons ⟨_, _, rfl, rfl, rfl⟩ (.cons ⟨_, _, rfl, rfl, rfl⟩ .nil))
  exact ⟨firm, succeeds, undoes, by decide, walk_back firm succeeds undoes⟩

end World

end RobotPuzzle
