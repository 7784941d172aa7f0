import RobotPuzzle.SortedMap

/-!
The connections of a block, in the order in which a fingerprint shows them: loop body, other
branch, inline expression, next block, stack body, and after these all others by name.
-/

namespace RobotPuzzle

inductive Slot
  | doBody
  | elseBody
  | inline
  | next
  | stack
  | named (name : String)
deriving DecidableEq, Repr

namespace Slot

def name : Slot → String
  | .doBody => "DO"
  | .elseBody => "ELSE"
  | .inline => "INLINE"
  | .next => "NEXT"
  | .stack => "STACK"
  | .named text => text

def ofName (text : String) : Slot :=
  match text with
  | "DO" => .doBody
  | "ELSE" => .elseBody
  | "INLINE" => .inline
  | "NEXT" => .next
  | "STACK" => .stack
  | _ => .named text

def rank : Slot → Nat
  | .doBody => 0
  | .elseBody => 1
  | .inline => 2
  | .next => 3
  | .stack => 4
  | .named _ => 5

instance : Ord Slot where
  compare := compareLex (compareOn Slot.rank) (compareOn Slot.name)

instance : Std.TransOrd Slot :=
  inferInstanceAs (Std.TransCmp (compareLex (compareOn Slot.rank) (compareOn Slot.name)))

instance : Std.LawfulEqOrd Slot where
  compare_self := Std.ReflCmp.compare_self
  eq_of_compare {first second} same := by
    obtain ⟨sameRank, sameName⟩ := compareLex_eq_eq.1 same
    replace sameRank : first.rank = second.rank := Std.compare_eq_iff_eq.1 sameRank
    replace sameName : first.name = second.name := Std.compare_eq_iff_eq.1 sameName
    cases first <;> cases second <;> simp_all [rank, name]

end Slot

end RobotPuzzle
