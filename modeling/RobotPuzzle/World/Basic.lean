import RobotPuzzle.World.Tile

/-!
The puzzle world: the tiles, the robot, and the ledger of collectibles and containers. A world is
built from a map by one look at every cell; a map that is no puzzle gives the first of its faults.
-/

namespace RobotPuzzle

/-- What is left to pick and to fill, cell by cell, and how far the robot has come. All counts are
32-bit numbers. Nothing checks that the totals fit: they are sums modulo `UInt32.size`. -/
structure Ledger where
  totalItems : UInt32
  totalCapacity : UInt32
  carried : UInt32
  putDown : UInt32
  /-- Items left on each cell that held some at the start. -/
  items : SortedMap Position UInt32
  room : SortedMap Position UInt32
deriving DecidableEq

def Ledger.isDepleted (ledger : Ledger) : Bool :=
  ledger.items.values.all (· == 0) && ledger.room.values.all (· == 0)

structure World where
  tiles : List (List Tile)
  robot : Pose
  ledger : Ledger
deriving DecidableEq

inductive MapError
  | noRows
  | emptyRow (row : Nat)
  | raggedRow (row : Nat)
  | unknownTile (code : String) (row col : Nat)
  | noStart
deriving DecidableEq, Repr

def MapError.message : MapError → String
  | .noRows => "map has no rows"
  | .emptyRow row => s!"map row {row} has no tiles"
  | .raggedRow row => s!"map row {row} differs in length from the first row"
  | .unknownTile code row col => s!"unknown tile code '{code}' at ({row}, {col})"
  | .noStart => "map has no robot start tile"

def cells {α : Type} (rows : List (List α)) : List (Position × α) :=
  rows.zipIdx.flatMap fun (line, row) => line.zipIdx.map fun (cell, col) => (⟨row, col⟩, cell)

/-- The first row, counted from `row`, that is empty or not `width` cells wide. -/
def rowFault? (width : Nat) : Nat → List (List Tile) → Option MapError
  | _, [] => none
  | row, line :: rest =>
    if line.isEmpty then some (.emptyRow row)
    else if line.length ≠ width then some (.raggedRow row)
    else rowFault? width (row + 1) rest

/-- The robot on the last start tile. -/
def startPose? (tiles : List (Position × Tile)) : Option Pose :=
  tiles.foldl (fun found cell =>
    match cell.2 with
    | .start heading => some ⟨cell.1, heading⟩
    | _ => found) none

def Ledger.addCell (ledger : Ledger) (cell : Position × Tile) : Ledger :=
  match cell.2 with
  | .collectible count =>
    { ledger with
      totalItems := ledger.totalItems + count, items := ledger.items.insert cell.1 count }
  | .container capacity =>
    { ledger with
      totalCapacity := ledger.totalCapacity + capacity, room := ledger.room.insert cell.1 capacity }
  | _ => ledger

def Ledger.ofCells (tiles : List (Position × Tile)) : Ledger :=
  tiles.foldl addCell ⟨0, 0, 0, 0, ∅, ∅⟩

namespace World

def ofTiles (tiles : List (List Tile)) : Except MapError World :=
  match tiles with
  | [] => .error .noRows
  | first :: _ =>
    match rowFault? first.length 0 tiles with
    | some fault => .error fault
    | none =>
      match startPose? (cells tiles) with
      | none => .error .noStart
      | some robot => .ok ⟨tiles, robot, Ledger.ofCells (cells tiles)⟩

def readRow (row : Nat) : Nat → List String → Except MapError (List Tile)
  | _, [] => .ok []
  | col, code :: rest =>
    match Tile.ofCode? code with
    | none => .error (.unknownTile code row col)
    | some tile =>
      match readRow row (col + 1) rest with
      | .error fault => .error fault
      | .ok tiles => .ok (tile :: tiles)

def readRows : Nat → List (List String) → Except MapError (List (List Tile))
  | _, [] => .ok []
  | row, line :: rest =>
    match readRow row 0 line with
    | .error fault => .error fault
    | .ok tiles =>
      match readRows (row + 1) rest with
      | .error fault => .error fault
      | .ok lines => .ok (tiles :: lines)

/-- The world of a map of codes. An unknown code is reported before any fault of the map's form. -/
def ofCodes (codes : List (List String)) : Except MapError World :=
  match readRows 0 codes with
  | .error fault => .error fault
  | .ok tiles => ofTiles tiles

def tileAt? (world : World) (position : Position) : Option Tile :=
  if position.row < 0 ∨ position.col < 0 then none
  else
    match world.tiles[position.row.toNat]? with
    | none => none
    | some tiles => tiles[position.col.toNat]?

def inBounds (world : World) (position : Position) : Bool := (world.tileAt? position).isSome

/-- The world with another tile at a position; outside the grid nothing changes. -/
def setTile (world : World) (position : Position) (tile : Tile) : World :=
  if position.row < 0 ∨ position.col < 0 then world
  else
    { world with
      tiles := world.tiles.modify position.row.toNat fun line => line.set position.col.toNat tile }

def waypointsCleared (world : World) : Bool :=
  world.tiles.all fun line => line.all fun tile => tile != .waypoint

def goalReady (world : World) : Bool := world.waypointsCleared && world.ledger.isDepleted

end World

end RobotPuzzle
