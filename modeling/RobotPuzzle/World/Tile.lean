import RobotPuzzle.Text.Numeral
import RobotPuzzle.World.Heading

/-!
Map tiles and their codes: `0` wall, `1` path, `2` goal, `3` to `6` the robot's start facing down,
right, up and left, `7` waypoint, `1` or `2` with a count a pile of collectibles or a container,
`30` pit. Counts are 32-bit numbers; a code writes one from 1 to 6, a tile may hold any.
-/

namespace RobotPuzzle

inductive Tile
  | wall
  | path
  | goal
  | start (heading : Heading)
  /-- A goal on the way; it becomes a path tile when the robot enters it. -/
  | waypoint
  | collectible (count : UInt32)
  | container (capacity : UInt32)
  | pit
deriving DecidableEq, Repr

namespace Tile

def maxCount : UInt32 := 6

/-- The code of a tile. A start tile with no cardinal heading is written as one facing down. -/
def code : Tile → String
  | .wall => "0"
  | .path => "1"
  | .goal => "2"
  | .start heading => toString (3 + (Heading.cardinals.findIdx? (· = heading)).getD 0)
  | .waypoint => "7"
  | .collectible count => "1" ++ toString count.toNat
  | .container capacity => "2" ++ toString capacity.toNat
  | .pit => "30"

def count? (digits : List Char) : Option UInt32 :=
  ((Text.numeral? UInt32.size digits).map Nat.toUInt32).filter fun count =>
    1 ≤ count ∧ count ≤ maxCount

def ofCode? (code : String) : Option Tile :=
  match code with
  | "0" => some .wall
  | "1" => some .path
  | "2" => some .goal
  | "3" => some (.start .down)
  | "4" => some (.start .right)
  | "5" => some (.start .up)
  | "6" => some (.start .left)
  | "7" => some .waypoint
  | "30" => some .pit
  | _ =>
    match code.toList with
    | '1' :: digits => (count? digits).map .collectible
    | '2' :: digits => (count? digits).map .container
    | _ => none

end Tile

structure UnknownTileCode where
  code : String
deriving DecidableEq, Repr

def UnknownTileCode.message (error : UnknownTileCode) : String :=
  s!"unknown tile code '{error.code}'"

end RobotPuzzle
