import RobotPuzzle.Workspace.Shape

/-!
The fingerprint of a shape: names in order, loop bodies in braces, other branches behind `else`,
inline expressions in parentheses, then the next block. The stack bodies along a chain of blocks
come after the chain, the innermost first. Blocks in other slots do not show.
-/

namespace RobotPuzzle.Shape

theorem sizeOf_child?_lt {shape child : Shape} {slot : Slot}
    (found : shape.child? slot = some child) : sizeOf child < sizeOf shape := by
  obtain ⟨type, name, children⟩ := shape
  have inChildren : sizeOf child < sizeOf children := by
    simp only [child?] at found
    clear type name
    induction children with
    | nil => simp at found
    | cons first rest ih =>
      obtain ⟨place, shape⟩ := first
      rw [List.lookup_cons] at found
      split at found
      · simp only [Option.some.injEq] at found
        subst found
        simp only [List.cons.sizeOf_spec, Prod.mk.sizeOf_spec]
        omega
      · have := ih found
        simp only [List.cons.sizeOf_spec]
        omega
  simp only [Shape.mk.sizeOf_spec]
  omega

/-- Writes a chain of blocks behind `before`; `closing` holds the stack bodies met so far, the
latest first. -/
def write (shape : Shape) (before : String) (closing : List String) : String :=
  let before := before ++ shape.name
  let before :=
    match _found : shape.child? .doBody with
    | none => before
    | some body => before ++ "\x7b" ++ body.write "" [] ++ "\x7d"
  let before :=
    match _found : shape.child? .elseBody with
    | none => before
    | some body => before ++ "else\x7b" ++ body.write "" [] ++ "\x7d"
  let before :=
    match _found : shape.child? .inline with
    | none => before
    | some body => before ++ "(" ++ body.write "" [] ++ ")"
  let closing :=
    match _found : shape.child? .stack with
    | none => closing
    | some body => ("\x7b" ++ body.write "" [] ++ "\x7d") :: closing
  match _found : shape.child? .next with
  | none => closing.foldl (· ++ ·) before
  | some next => next.write before closing
termination_by sizeOf shape
decreasing_by all_goals exact sizeOf_child?_lt _found

def fingerprint (shape : Shape) : String := shape.write "" []

end RobotPuzzle.Shape
