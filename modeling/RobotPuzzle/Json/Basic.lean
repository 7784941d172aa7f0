/-!
JSON values. An integer literal in the 64-bit ranges keeps its exact value, every other number is a
double. Objects keep their members in the order of the text, repeated names included.

A text can be well formed and still stand for no value: a number beyond the doubles, a string with
half of a surrogate pair, or an array or object nested deeper than the reader allows. Such a part is
`unfit`. No reader of a type accepts it, but it may stand where a value is passed over.
-/

namespace RobotPuzzle

inductive Json
  | null
  | bool (value : Bool)
  | int (value : Int)
  | float (value : Float)
  | str (value : String)
  | arr (items : List Json)
  | obj (members : List (String × Json))
  | unfit
deriving Inhabited

namespace Json

/-- A number that may not be finite; JSON has no text for infinities, so those become `null`. -/
def ofFloat (value : Float) : Json := if value.isFinite then .float value else .null

def ofNat (value : Nat) : Json := .int value

def ofOption {α : Type} (encode : α → Json) : Option α → Json
  | none => .null
  | some value => encode value

def ofList {α : Type} (encode : α → Json) (values : List α) : Json := .arr (values.map encode)

def str? : Json → Option String
  | .str value => some value
  | _ => none

def bool? : Json → Option Bool
  | .bool value => some value
  | _ => none

def int? (low high : Int) : Json → Option Int
  | .int value => if low ≤ value ∧ value < high then some value else none
  | _ => none

def nat? (bound : Nat) (json : Json) : Option Nat := (json.int? 0 bound).map Int.toNat

def uint32? (json : Json) : Option UInt32 := (json.nat? UInt32.size).map Nat.toUInt32

def uint64? (json : Json) : Option UInt64 := (json.nat? UInt64.size).map Nat.toUInt64

def int32? (json : Json) : Option Int := json.int? (-0x80000000) 0x80000000

def int64? (json : Json) : Option Int := json.int? (-0x8000000000000000) 0x8000000000000000

/-- The double nearest to an integer of the 64-bit ranges. -/
def floatOfInt (value : Int) : Float :=
  if value < 0 then -value.natAbs.toUInt64.toFloat else value.toNat.toUInt64.toFloat

def float? : Json → Option Float
  | .float value => some value
  | .int value => some (floatOfInt value)
  | _ => none

def list? {α : Type} (read : Json → Option α) : Json → Option (List α)
  | .arr items => items.mapM read
  | _ => none

mutual

def nesting : Json → Nat
  | .arr items => nestingOfItems items + 1
  | .obj members => nestingOfMembers members + 1
  | _ => 0

def nestingOfItems : List Json → Nat
  | [] => 0
  | item :: rest => max item.nesting (nestingOfItems rest)

def nestingOfMembers : List (String × Json) → Nat
  | [] => 0
  | (_, value) :: rest => max value.nesting (nestingOfMembers rest)

end

mutual

def isFit : Json → Bool
  | .unfit => false
  | .arr items => itemsFit items
  | .obj members => membersFit members
  | _ => true

def itemsFit : List Json → Bool
  | [] => true
  | item :: rest => item.isFit && itemsFit rest

def membersFit : List (String × Json) → Bool
  | [] => true
  | (_, value) :: rest => value.isFit && membersFit rest

end

end Json

end RobotPuzzle
