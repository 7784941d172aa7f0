import RobotPuzzle.Proofs.World.Actions
import RobotPuzzle.Proofs.World.Conservation
import RobotPuzzle.Proofs.World.Grid

/-!
Where any calls take the robot, and what they make of the map: the robot never leaves the grid, and
the only tiles that change are the waypoints on which it has stood.
-/

namespace RobotPuzzle

def Tile.trodden : Tile → Tile
  | .waypoint => .path
  | tile => tile

theorem Tile.trodden_of_ne {tile : Tile} (plain : tile ≠ .waypoint) : tile.trodden = tile := by
  cases tile <;> first | rfl | contradiction

theorem Tile.trodden_ne (tile : Tile) : tile.trodden ≠ .waypoint := by
  cases tile <;> nofun

theorem Pose.heading_after_mem {pose : Pose} (cardinal : pose.heading ∈ Heading.cardinals)
    (move : Move) : (pose.after move).heading ∈ Heading.cardinals := by
  simp only [after]
  split
  next turn _ => exact Heading.rotate_mem_cardinals cardinal turn
  next => exact cardinal

theorem Pose.after_near {pose : Pose} (cardinal : pose.heading ∈ Heading.cardinals) (move : Move) :
    ∃ dRow dCol : Int,
      (pose.after move).position = ⟨pose.position.row + dRow, pose.position.col + dCol⟩ ∧
        (-2 ≤ dRow ∧ dRow ≤ 2) ∧ -2 ≤ dCol ∧ dCol ≤ 2 := by
  simp only [Heading.cardinals, List.mem_cons, List.not_mem_nil, or_false] at cardinal
  cases move with
  | turnLeft | turnRight => exact ⟨0, 0, by simp [after, Move.turn?], by decide, by decide⟩
  | forward | backward | jumpForward =>
      refine ⟨_, _, rfl, ?_⟩
      rcases cardinal with facing | facing | facing | facing <;> rw [facing] <;> decide

structure Position.Fits (position : Position) : Prop where
  row : (Int32.ofInt position.row).toInt = position.row
  col : (Int32.ofInt position.col).toInt = position.col

theorem Position.Fits.of_bounds {position : Position}
    (row : -0x80000000 ≤ position.row ∧ position.row < 0x80000000)
    (col : -0x80000000 ≤ position.col ∧ position.col < 0x80000000) : position.Fits :=
  ⟨Int32.toInt_ofInt_of_le row.1 row.2, Int32.toInt_ofInt_of_le col.1 col.2⟩

namespace World

structure Call where
  action : Action
  block : String
  log : Log

def after (world : World) (call : Call) : World :=
  (act call.action call.block world call.log).world

def afterAll (world : World) (calls : List Call) : World := calls.foldl after world

def trail (world : World) : List Call → List Position
  | [] => []
  | call :: rest => (world.after call).robot.position :: (world.after call).trail rest

theorem trail_append (world : World) (calls more : List Call) :
    world.trail (calls ++ more) = world.trail calls ++ (world.afterAll calls).trail more := by
  induction calls generalizing world with
  | nil => rfl
  | cons call rest ih => exact congrArg (_ :: ·) (ih (world.after call))

/-- What a call can do to robot and map: nothing, or a move onto a cell of the grid, which treads
on the tile there. -/
inductive Treads (before : World) : World → Prop
  | stays {next} (robot : next.robot = before.robot) (tiles : next.tiles = before.tiles) :
      Treads before next
  | moves {next move tile} (ahead : before.ahead? move = some tile)
      (robot : next.robot = before.robot.after move)
      (widths : next.tiles.map List.length = before.tiles.map List.length)
      (tiles : ∀ position, next.tileAt? position = (before.tileAt? position).map fun tile =>
        if position = next.robot.position then tile.trodden else tile) :
      Treads before next

variable {start before world next : World} {block : String} {action : Action} {move : Move}
  {tile : Tile} {entries : List LogEntry} {outcome : Except FaultKind Bool}
  {visited : List Position}

theorem treads_moved (ahead : world.ahead? move = some tile) (plain : tile ≠ .waypoint) :
    world.Treads (world.moved move) := by
  refine .moves ahead rfl rfl fun position => ?_
  have same : (world.moved move).tileAt? position = world.tileAt? position := rfl
  rw [same]
  by_cases here : position = (world.moved move).robot.position
  · have underfoot : world.tileAt? position = some tile := here ▸ ahead
    simp [underfoot, Tile.trodden_of_ne plain]
  · simp [here]

theorem treads_setTile (ahead : world.ahead? move = some .waypoint) :
    world.Treads ((world.moved move).setTile (world.robot.after move).position .path) := by
  have robot : ((world.moved move).setTile (world.robot.after move).position .path).robot =
      world.robot.after move := setTile_robot _ _ _
  refine .moves ahead robot (widths_setTile _ _ _) fun position => ?_
  have same : (world.moved move).tileAt? position = world.tileAt? position := rfl
  rw [tileAt?_setTile, same, robot]
  by_cases here : position = (world.robot.after move).position
  · have underfoot : world.tileAt? position = some .waypoint := here ▸ ahead
    rw [underfoot, Option.map_some, Option.map_some, if_pos here, if_pos here]
    rfl
  · simp [here]

theorem Acts.treads (acts : world.Acts block action next entries outcome) :
    world.Treads next := by
  cases acts with
  | leaves | picks | puts | refuses => exact .stays rfl rfl
  | bumps ahead | falls ahead | arrives ahead => exact treads_moved ahead nofun
  | clears ahead => exact treads_setTile ahead
  | moves ahead plain =>
      refine treads_moved ahead ?_
      rintro rfl
      simp at plain

theorem treads_after (world : World) (call : Call) : world.Treads (world.after call) := by
  obtain ⟨entries, -, acts⟩ := act_acts call.action call.block world call.log
  exact acts.treads

/-- The world after the robot has visited some cells: it stands in the grid on a tile it has
trodden on, and every other tile is what it was unless it was visited. -/
structure Toured (start world : World) (visited : List Position) : Prop where
  facing : world.robot.heading ∈ Heading.cardinals
  standing : ∃ tile, world.tileAt? world.robot.position = some tile ∧ tile ≠ .waypoint
  widths : world.tiles.map List.length = start.tiles.map List.length
  tiles : ∀ position, world.tileAt? position = (start.tileAt? position).map fun tile =>
    if position ∈ visited then tile.trodden else tile

theorem toured_start {tiles : List (List Tile)} (accepted : ofTiles tiles = .ok start)
    (cardinal : ∀ line ∈ tiles, ∀ heading, Tile.start heading ∈ line →
      heading ∈ Heading.cardinals) : start.Toured start [] := by
  obtain ⟨rfl, started, -⟩ := ofTiles_eq_ok accepted
  have onStart := mem_of_startPose? started
  refine ⟨?_, ⟨_, tileAt?_eq_some_iff.2 onStart, nofun⟩, rfl, by simp⟩
  obtain ⟨row, col, -, line, foundLine, foundTile⟩ := mem_cells_iff.1 onStart
  exact cardinal line (List.mem_of_getElem? foundLine) _ (List.mem_of_getElem? foundTile)

theorem Toured.treads (toured : start.Toured before visited) (treads : before.Treads next) :
    start.Toured next (visited ++ [next.robot.position]) := by
  obtain ⟨facing, ⟨underfoot, standing, plain⟩, widths, tiles⟩ := toured
  cases treads with
  | stays robot sameTiles =>
      have same : ∀ position, next.tileAt? position = before.tileAt? position := by
        intro position
        simp only [tileAt?, sameTiles]
      refine ⟨robot ▸ facing, ⟨underfoot, ?_, plain⟩, sameTiles ▸ widths, ?_⟩
      · rw [same, robot]
        exact standing
      · intro position
        rw [same, tiles]
        by_cases here : position = before.robot.position
        · -- A cell that is trodden on once more was no waypoint any longer.
          rw [← here, tiles] at standing
          cases first : start.tileAt? position with
          | none => rfl
          | some tile =>
              by_cases old : position ∈ visited
              · simp [old]
              · have same : tile = underfoot := by simpa [first, old] using standing
                simp [old, robot, same, Tile.trodden_of_ne plain]
        · simp [here, robot]
  | @moves move tile ahead robot sameWidths trodden =>
      have reached : next.tileAt? next.robot.position = some tile.trodden := by
        have found : before.tileAt? next.robot.position = some tile := robot ▸ ahead
        simp [trodden, found]
      refine ⟨?_, ⟨_, reached, tile.trodden_ne⟩, sameWidths.trans widths, ?_⟩
      · rw [robot]
        exact Pose.heading_after_mem facing move
      · intro position
        rw [trodden, tiles, Option.map_map]
        congr 1
        funext first
        simp only [Function.comp_apply, List.mem_append, List.mem_singleton]
        by_cases here : position = next.robot.position
        · rw [if_pos here, if_pos (Or.inr here)]
          by_cases old : position ∈ visited
          · rw [if_pos old, Tile.trodden_of_ne first.trodden_ne]
          · rw [if_neg old]
        · simp [here]

theorem Toured.afterAll (toured : start.Toured world visited) (calls : List Call) :
    start.Toured (world.afterAll calls) (visited ++ world.trail calls) := by
  induction calls generalizing world visited with
  | nil => simpa [World.afterAll, trail] using toured
  | cons call rest ih =>
      have last := ih (toured.treads (world.treads_after call))
      rw [List.append_assoc] at last
      exact last

theorem Toured.changed_iff (toured : start.Toured world visited) (position : Position) :
    world.tileAt? position ≠ start.tileAt? position ↔
      start.tileAt? position = some .waypoint ∧ position ∈ visited := by
  rw [toured.tiles]
  cases start.tileAt? position with
  | none => simp
  | some tile =>
      by_cases old : position ∈ visited
      · cases tile <;> simp [old, Tile.trodden]
      · simp [old]

theorem Toured.cleared_iff (toured : start.Toured world visited) :
    world.waypointsCleared = true ↔
      ∀ position, start.tileAt? position = some .waypoint → position ∈ visited := by
  rw [waypointsCleared_iff]
  refine forall_congr' fun position => ?_
  rw [toured.tiles]
  cases start.tileAt? position with
  | none => simp
  | some tile =>
      by_cases old : position ∈ visited
      · simp [old, tile.trodden_ne]
      · simp [old]

/-- The robot is in the grid and faces along it, the map has its form, and a tile has changed if
and only if it was a waypoint that the robot has stood on. -/
structure Safe (start world : World) (visited : List Position) : Prop where
  inside : world.inBounds world.robot.position = true
  facing : world.robot.heading ∈ Heading.cardinals
  rows : world.tiles.length = start.tiles.length
  widths : world.tiles.map List.length = start.tiles.map List.length
  changed_iff : ∀ position, world.tileAt? position ≠ start.tileAt? position ↔
    start.tileAt? position = some .waypoint ∧ position ∈ visited
  changed_to_path : ∀ position, world.tileAt? position ≠ start.tileAt? position →
    world.tileAt? position = some .path
  cleared_iff : world.waypointsCleared = true ↔
    ∀ position, start.tileAt? position = some .waypoint → position ∈ visited

theorem Toured.safe (toured : start.Toured world visited) : start.Safe world visited where
  inside := by
    obtain ⟨tile, standing, -⟩ := toured.standing
    rw [inBounds, standing, Option.isSome_some]
  facing := toured.facing
  rows := by simpa using congrArg List.length toured.widths
  widths := toured.widths
  changed_iff := toured.changed_iff
  changed_to_path position changed := by
    obtain ⟨waypoint, old⟩ := (toured.changed_iff position).1 changed
    rw [toured.tiles, waypoint, Option.map_some, if_pos old]
    rfl
  cleared_iff := toured.cleared_iff

/-- On every accepted map whose starts face along the grid, after any calls, failed ones among them,
the robot is inside the grid and only the waypoints it has visited have changed, into path tiles.
Waypoints that are cleared stay so. -/
theorem calls_are_safe {tiles : List (List Tile)} (accepted : ofTiles tiles = .ok start)
    (cardinal : ∀ line ∈ tiles, ∀ heading, Tile.start heading ∈ line →
      heading ∈ Heading.cardinals) (calls : List Call) :
    start.Safe (start.afterAll calls) (start.trail calls) ∧
      ((start.afterAll calls).waypointsCleared = true →
        ∀ more, (start.afterAll (calls ++ more)).waypointsCleared = true) := by
  have toured : ∀ calls, start.Toured (start.afterAll calls) (start.trail calls) :=
    (toured_start accepted cardinal).afterAll
  refine ⟨(toured calls).safe, ?_⟩
  intro cleared more
  rw [(toured (calls ++ more)).cleared_iff, trail_append]
  intro position waypoint
  exact List.mem_append_left _ ((toured calls).cleared_iff.1 cleared position waypoint)

theorem Safe.coordinates {bound : Nat} (safe : start.Safe world visited)
    (rows : start.tiles.length ≤ bound) (cols : ∀ line ∈ start.tiles, line.length ≤ bound) :
    (0 ≤ world.robot.position.row ∧ world.robot.position.row < bound) ∧
      0 ≤ world.robot.position.col ∧ world.robot.position.col < bound := by
  obtain ⟨tile, standing⟩ := Option.isSome_iff_exists.1 safe.inside
  obtain ⟨row, col, place, line, foundLine, foundTile⟩ :=
    mem_cells_iff.1 (tileAt?_eq_some_iff.1 standing)
  have rowInside := (List.getElem?_eq_some_iff.1 foundLine).1
  have colInside := (List.getElem?_eq_some_iff.1 foundTile).1
  have width : line.length ∈ world.tiles.map List.length :=
    List.mem_map_of_mem (List.mem_of_getElem? foundLine)
  rw [safe.widths] at width
  obtain ⟨first, isLine, same⟩ := List.mem_map.1 width
  have narrow := cols first isLine
  rw [safe.rows] at rowInside
  simp only [place]
  omega

/-- On a map of at most 2147483646 rows and columns the coordinates of the robot, and of every cell
that it tries to move to, are 32-bit integers. -/
theorem positions_fit {tiles : List (List Tile)} (accepted : ofTiles tiles = .ok start)
    (cardinal : ∀ line ∈ tiles, ∀ heading, Tile.start heading ∈ line →
      heading ∈ Heading.cardinals)
    (rows : tiles.length ≤ 2147483646) (cols : ∀ line ∈ tiles, line.length ≤ 2147483646)
    (calls : List Call) (move : Move) :
    (start.afterAll calls).robot.position.Fits ∧
      ((start.afterAll calls).robot.after move).position.Fits := by
  have safe : start.Safe (start.afterAll calls) (start.trail calls) :=
    ((toured_start accepted cardinal).afterAll calls).safe
  rw [← (ofTiles_eq_ok accepted).1] at rows cols
  obtain ⟨row, col⟩ := safe.coordinates rows cols
  obtain ⟨dRow, dCol, ahead, rowNear, colNear⟩ := Pose.after_near safe.facing move
  rw [ahead]
  exact ⟨.of_bounds (by omega) (by omega), .of_bounds (by simp only; omega) (by simp only; omega)⟩

def crossingTiles : List (List Tile) :=
  [[.start .right, .waypoint, .wall], [.pit, .path, .waypoint]]

def crossing : World :=
  ⟨crossingTiles, ⟨⟨0, 0⟩, .right⟩, Ledger.ofCells (cells crossingTiles)⟩

def crossingCalls : List Call :=
  [⟨.move .forward, "a", #[]⟩, ⟨.move .forward, "b", #[]⟩, ⟨.pick, "c", #[⟨.fallPit, "z"⟩]⟩,
    ⟨.move .turnRight, "d", #[]⟩, ⟨.move .forward, "e", #[]⟩, ⟨.move .forward, "f", #[]⟩]

theorem calls_are_safe_crossing :
    ofTiles crossingTiles = .ok crossing ∧
      (∀ line ∈ crossingTiles, ∀ heading, Tile.start heading ∈ line →
        heading ∈ Heading.cardinals) ∧
      crossing.Safe (crossing.afterAll crossingCalls) (crossing.trail crossingCalls) ∧
      crossing.trail crossingCalls = [⟨0, 1⟩, ⟨0, 2⟩, ⟨0, 2⟩, ⟨0, 2⟩, ⟨1, 2⟩, ⟨1, 2⟩] ∧
      ∀ more, (crossing.afterAll (crossingCalls ++ more)).waypointsCleared = true := by
  have accepted : ofTiles crossingTiles = .ok crossing := rfl
  have cardinal : ∀ line ∈ crossingTiles, ∀ heading, Tile.start heading ∈ line →
      heading ∈ Heading.cardinals := by
    simp [crossingTiles, Heading.cardinals]
  have safe := calls_are_safe accepted cardinal crossingCalls
  have cleared : (crossing.afterAll crossingCalls).waypointsCleared = true := by decide
  exact ⟨accepted, cardinal, safe.1, by decide, safe.2 cleared⟩

end World

end RobotPuzzle
