/-!
The block types of the navigation puzzles and their abbreviations. Any other type is carried along
but never run.
-/

namespace RobotPuzzle

inductive Kind
  | start
  | forward
  | backward
  | jumpForward
  | turnLeft
  | turnRight
  | loop
  | pick
  | putDown
  | other
deriving DecidableEq, Repr

namespace Kind

def ofType (type : String) : Kind :=
  match type with
  | "start" => .start
  | "forward" => .forward
  | "backward" => .backward
  | "jump_forward" => .jumpForward
  | "turn_left" => .turnLeft
  | "turn_right" => .turnRight
  | "repeat" => .loop
  | "pick_collectible" => .pick
  | "put_down_collectible" => .putDown
  | _ => .other

/-- The abbreviation in fingerprints. The entry and a step backwards share one; the entry only
stands at the head of a program. -/
def shortName? : Kind → Option String
  | .start => some "b"
  | .forward => some "f"
  | .backward => some "b"
  | .jumpForward => some "j"
  | .turnLeft => some "t(l)"
  | .turnRight => some "t(r)"
  | .loop => some "r"
  | .pick => some "c"
  | .putDown => some "h"
  | .other => none

end Kind

def entryType : String := "start"

def timesField : String := "TIMES"

end RobotPuzzle
