import RobotPuzzle.Json.Basic
import RobotPuzzle.Text.Shortest

/-!
Writing JSON, on one line or spread over lines with two blanks for each level. Only quotes,
backslashes and control characters are escaped; members keep their order.
-/

namespace RobotPuzzle.Json

/-- A double is written without an exponent from `0.00001` up to sixteen places before the point. -/
def pointRange : Text.PointRange := ⟨-5, 16⟩

def hexDigit (value : Nat) : Char := (Nat.toDigits 16 value).headD '0'

def escapeChar (c : Char) : List Char :=
  match c with
  | '"' => ['\\', '"']
  | '\\' => ['\\', '\\']
  | '\x08' => ['\\', 'b']
  | '\x0c' => ['\\', 'f']
  | '\n' => ['\\', 'n']
  | '\r' => ['\\', 'r']
  | '\t' => ['\\', 't']
  | _ =>
    if c.toNat < 0x20 then ['\\', 'u', '0', '0', hexDigit (c.toNat / 16), hexDigit (c.toNat % 16)]
    else [c]

def quoted (text : String) : String :=
  "\"" ++ String.ofList (text.toList.flatMap escapeChar) ++ "\""

def scalarText : Json → String
  | .null => "null"
  | .bool value => if value then "true" else "false"
  | .int value => toString value
  | .float value => if value.isFinite then Text.floatText pointRange value else "null"
  | .str value => quoted value
  | .arr _ => "[]"
  | .obj _ => "\x7b\x7d"
  | .unfit => "null"

mutual

def compact : Json → String
  | .arr items => "[" ++ ",".intercalate (compactItems items) ++ "]"
  | .obj members => "\x7b" ++ ",".intercalate (compactMembers members) ++ "\x7d"
  | scalar => scalarText scalar

def compactItems : List Json → List String
  | [] => []
  | item :: rest => compact item :: compactItems rest

def compactMembers : List (String × Json) → List String
  | [] => []
  | (name, value) :: rest => (quoted name ++ ":" ++ compact value) :: compactMembers rest

end

def blanks (level : Nat) : String := String.ofList (List.replicate (2 * level) ' ')

/-- Parts on lines of their own between two marks that stand at `level`. -/
def spread (level : Nat) (opening closing : String) (parts : List String) : String :=
  opening ++ "\n" ++ ",\n".intercalate (parts.map (blanks (level + 1) ++ ·)) ++ "\n" ++
    blanks level ++ closing

mutual

def pretty (level : Nat) : Json → String
  | .arr items =>
    match items with
    | [] => "[]"
    | first :: rest => spread level "[" "]" (prettyItems (level + 1) (first :: rest))
  | .obj members =>
    match members with
    | [] => "\x7b\x7d"
    | first :: rest => spread level "\x7b" "\x7d" (prettyMembers (level + 1) (first :: rest))
  | scalar => scalarText scalar

def prettyItems (level : Nat) : List Json → List String
  | [] => []
  | item :: rest => pretty level item :: prettyItems level rest

def prettyMembers (level : Nat) : List (String × Json) → List String
  | [] => []
  | (name, value) :: rest => (quoted name ++ ": " ++ pretty level value) :: prettyMembers level rest

end

end RobotPuzzle.Json
