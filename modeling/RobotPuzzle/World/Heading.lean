import RobotPuzzle.SortedMap

/-!
Where the robot stands and which way it faces. A heading is a displacement of one step; the four
cardinal ones have names, and a quarter turn acts on every displacement. Coordinates have no bound;
those that come up on a map of at most 2147483646 rows and columns fit into 32 bits.
-/

namespace RobotPuzzle

inductive Turn
  | left
  | right
deriving DecidableEq, Repr

def Turn.opposite : Turn → Turn
  | .left => .right
  | .right => .left

/-- The displacement of one step: rows grow downwards, columns to the right. -/
structure Heading where
  dRow : Int
  dCol : Int
deriving DecidableEq, Repr

namespace Heading

def down : Heading := ⟨1, 0⟩
def right : Heading := ⟨0, 1⟩
def up : Heading := ⟨-1, 0⟩
def left : Heading := ⟨0, -1⟩

/-- The four cardinal headings, in the order of their start-tile codes. -/
def cardinals : List Heading := [down, right, up, left]

def rotate (heading : Heading) : Turn → Heading
  | .left => ⟨-heading.dCol, heading.dRow⟩
  | .right => ⟨heading.dCol, -heading.dRow⟩

theorem rotate_opposite (heading : Heading) (turn : Turn) :
    (heading.rotate turn).rotate turn.opposite = heading := by
  cases turn <;> simp [rotate, Turn.opposite]

theorem rotate_mem_cardinals {heading : Heading} (cardinal : heading ∈ cardinals) (turn : Turn) :
    heading.rotate turn ∈ cardinals := by
  simp only [cardinals, List.mem_cons, List.not_mem_nil, or_false] at cardinal
  rcases cardinal with rfl | rfl | rfl | rfl <;> cases turn <;> decide

/-- The name of a cardinal heading, and the displacement itself for any other. -/
def text (heading : Heading) : String :=
  if heading = down then "down"
  else if heading = right then "right"
  else if heading = up then "up"
  else if heading = left then "left"
  else s!"({heading.dRow}, {heading.dCol})"

end Heading

/-- A cell by row and column, which may lie outside the grid. -/
structure Position where
  row : Int
  col : Int
deriving DecidableEq, Repr

namespace Position

/-- Positions are ordered by row, then by column. -/
instance : Ord Position where
  compare := compareLex (compareOn Position.row) (compareOn Position.col)

instance : Std.TransOrd Position :=
  inferInstanceAs (Std.TransCmp (compareLex (compareOn Position.row) (compareOn Position.col)))

instance : Std.LawfulEqOrd Position where
  compare_self := Std.ReflCmp.compare_self
  eq_of_compare {first second} same := by
    obtain ⟨sameRow, sameCol⟩ := compareLex_eq_eq.1 same
    obtain ⟨row, col⟩ := first
    obtain ⟨row', col'⟩ := second
    simp only [Position.mk.injEq]
    exact ⟨Std.compare_eq_iff_eq.1 sameRow, Std.compare_eq_iff_eq.1 sameCol⟩

/-- The cell reached by `count` steps along `heading`; a negative count goes backwards. -/
def step (position : Position) (heading : Heading) (count : Int) : Position :=
  ⟨position.row + heading.dRow * count, position.col + heading.dCol * count⟩

theorem step_step_neg (position : Position) (heading : Heading) (count : Int) :
    (position.step heading count).step heading (-count) = position := by
  simp only [step, Int.mul_neg]
  cases position
  simp only [Position.mk.injEq]
  omega

end Position

structure Pose where
  position : Position
  heading : Heading
deriving DecidableEq, Repr

end RobotPuzzle
