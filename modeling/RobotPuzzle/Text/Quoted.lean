import RobotPuzzle.Text.Printable

/-!
A text between double quotes, so that a reader sees where it begins and ends and what is in it:
quotes, backslashes and characters that cannot be shown stand as escapes.
-/

namespace RobotPuzzle.Text

def escaped (c : Char) : List Char :=
  match c with
  | '"' => ['\\', '"']
  | '\\' => ['\\', '\\']
  | '\n' => ['\\', 'n']
  | '\r' => ['\\', 'r']
  | '\t' => ['\\', 't']
  | '\x00' => ['\\', '0']
  | _ => if isPrintable c then [c] else ['\\', 'u', '{'] ++ Nat.toDigits 16 c.toNat ++ ['}']

def quoted (text : String) : String :=
  "\"" ++ String.ofList (text.toList.flatMap escaped) ++ "\""

end RobotPuzzle.Text
