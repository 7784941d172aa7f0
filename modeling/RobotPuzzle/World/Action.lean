/-!
What a program can tell the robot to do, what the log keeps of it, and how it can go wrong, with
the short codes and texts of each.
-/

namespace RobotPuzzle

inductive Move
  | forward
  | backward
  | jumpForward
  | turnLeft
  | turnRight
deriving DecidableEq, Repr

namespace Move

def all : List Move := [.forward, .backward, .jumpForward, .turnLeft, .turnRight]

def code : Move → String
  | .forward => "f"
  | .backward => "b"
  | .jumpForward => "jf"
  | .turnLeft => "tl"
  | .turnRight => "tr"

def ofCode? (code : String) : Option Move := all.find? fun move => move.code == code

end Move

inductive Action
  | move (move : Move)
  | pick
  | putDown
deriving DecidableEq, Repr

inductive Deed
  | move (move : Move)
  | blocked (move : Move)
  | fallPit
  | pick
  | putDown
deriving DecidableEq, Repr

namespace Deed

/-- The code of a deed: that of its move, with `X` behind it when a wall was in the way. -/
def code : Deed → String
  | .move made => made.code
  | .blocked tried => tried.code ++ "X"
  | .fallPit => "fallPit"
  | .pick => "p"
  | .putDown => "v"

def all : List Deed :=
  [.fallPit, .pick, .putDown] ++ Move.all.map .move ++ Move.all.map .blocked

def ofCode? (code : String) : Option Deed := all.find? fun deed => deed.code == code

theorem ofCode?_code (deed : Deed) : ofCode? deed.code = some deed := by
  cases deed with
  | move made => cases made <;> decide
  | blocked tried => cases tried <;> decide
  | fallPit => decide
  | pick => decide
  | putDown => decide

end Deed

structure UnknownDeed where
  code : String
deriving DecidableEq, Repr

def UnknownDeed.message (error : UnknownDeed) : String :=
  s!"unknown operation action '{error.code}'"

structure LogEntry where
  deed : Deed
  block : String
deriving DecidableEq, Repr

/-- The log of a run, oldest entry first. -/
abbrev Log := Array LogEntry

inductive FaultKind
  | outOfBounds
  | wall
  | pit
  | nothingToCollect
  | tooManyCollections
  | noContainers
  | allFull
  | nothingToPutDown
deriving DecidableEq, Repr

namespace FaultKind

def all : List FaultKind :=
  [.outOfBounds, .wall, .pit, .nothingToCollect, .tooManyCollections, .noContainers, .allFull,
    .nothingToPutDown]

def name : FaultKind → String
  | .outOfBounds => "outOfBounds"
  | .wall => "wall"
  | .pit => "pit"
  | .nothingToCollect => "nothingToCollect"
  | .tooManyCollections => "tooManyCollections"
  | .noContainers => "noContainers"
  | .allFull => "allFull"
  | .nothingToPutDown => "nothingToPutDown"

def message : FaultKind → String
  | .outOfBounds => "Out of bounds!"
  | .wall => "Hit wall!"
  | .pit => "Fell in pit!"
  | .nothingToCollect => "No collectibles here!"
  | .tooManyCollections => "Already collected everything here!"
  | .noContainers => "No containers here!"
  | .allFull => "Already filled everything here!"
  | .nothingToPutDown => "Nothing to put down!"

end FaultKind

/-- A failed action with the log up to and including it. -/
structure Fault where
  kind : FaultKind
  log : Log
deriving DecidableEq, Repr

end RobotPuzzle
