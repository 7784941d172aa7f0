import RobotPuzzle.Workspace.Basic
import RobotPuzzle.World.Basic

/-!
Exercises as their authors write them, and the catalog of built-in ones.
-/

namespace RobotPuzzle

structure Exercise where
  url : String
  instructions : List String
  /-- The map as tile codes, row by row. -/
  map : List (List String)
  htmlInstr : Option String
  idealBlocks : UInt32
  /-- The program in the workspace at the start, in place of a bare entry block. -/
  defaultProgram : Option BlockSpec

inductive ExerciseError
  | unknown (url : String)
  | invalidMap (url : String) (cause : MapError)
deriving DecidableEq, Repr

def ExerciseError.message : ExerciseError → String
  | .unknown url => s!"unknown exercise '{url}'"
  | .invalidMap url cause => s!"exercise '{url}' has an invalid map: {cause.message}"

def entryId : String := "start"

namespace Exercise

def world (exercise : Exercise) : Except ExerciseError World :=
  match World.ofCodes exercise.map with
  | .error cause => .error (.invalidMap exercise.url cause)
  | .ok world => .ok world

def program (exercise : Exercise) : BlockSpec :=
  exercise.defaultProgram.getD (.leaf entryId entryType)

end Exercise

namespace Catalog

def basicBlocks : List String := ["forward", "backward", "turn_left", "turn_right"]

def loopBlocks : List String := basicBlocks ++ ["repeat"]

def drawn (rows : List String) : List (List String) :=
  rows.map fun row => row.toList.map String.singleton

def mistakenProgram : BlockSpec :=
  let types :=
    ["forward", "forward", "turn_left", "forward", "forward", "turn_right", "forward"]
  (BlockSpec.leaf entryId entryType).chain
    (types.zipIdx.map fun (type, place) => .leaf s!"default-{place + 1}" type)

def exercises : List Exercise :=
  [ { url := "blockly2d:0"
      instructions := basicBlocks
      map :=
        drawn
          [ "00000000",
            "00000000",
            "00020000",
            "00010000",
            "00010000",
            "00010000",
            "00050000",
            "00000000" ]
      htmlInstr := some "simpleNavigation"
      idealBlocks := 5
      defaultProgram := none },
    { url := "blockly2d:1"
      instructions := basicBlocks
      map :=
        drawn
          [ "00000000",
            "00000000",
            "00000000",
            "00000300",
            "00000100",
            "00000100",
            "00000200",
            "00000000" ]
      htmlInstr := some "simpleNavigation"
      idealBlocks := 4
      defaultProgram := none },
    { url := "blockly2d:2"
      instructions := basicBlocks
      map :=
        drawn
          [ "00000000",
            "00000000",
            "00002000",
            "00001000",
            "00411000",
            "00000000",
            "00000000",
            "00000000" ]
      htmlInstr := some "simpleNavigation"
      idealBlocks := 6
      defaultProgram := none },
    { url := "blockly2d:3"
      instructions := basicBlocks
      map :=
        drawn
          [ "00000000",
            "00000000",
            "00210000",
            "00010000",
            "00011600",
            "00000000",
            "00000000",
            "00000000" ]
      htmlInstr := some "simpleDebug"
      idealBlocks := 8
      defaultProgram := some mistakenProgram },
    { url := "blockly2d:4"
      instructions := loopBlocks
      map :=
        drawn
          [ "00000000",
            "04111110",
            "00000020",
            "00000000",
            "00000000",
            "00000000",
            "00000000",
            "00000000" ]
      htmlInstr := some "simpleNavigation"
      idealBlocks := 5
      defaultProgram := none },
    { url := "blockly2d:5"
      instructions := loopBlocks
      map :=
        drawn
          [ "00000000",
            "04111170",
            "01000010",
            "01000010",
            "01000010",
            "01000010",
            "02111170",
            "00000000" ]
      htmlInstr := some "navigationMiddleGoal"
      idealBlocks := 5
      defaultProgram := none } ]

def find (url : String) : Except ExerciseError Exercise :=
  match exercises.find? fun exercise => exercise.url == url with
  | none => .error (.unknown url)
  | some exercise => .ok exercise

end Catalog

end RobotPuzzle
