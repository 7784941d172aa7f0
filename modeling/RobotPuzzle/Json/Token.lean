import RobotPuzzle.Json.Number

/-!
The tokens of a JSON text. A machine reads the text character by character; strings follow the
strict rules: no raw control characters and only the known escapes. A surrogate without its partner
makes a string unfit.
-/

namespace RobotPuzzle.Json

inductive Token
  | openBrace
  | closeBrace
  | openBracket
  | closeBracket
  | colon
  | comma
  /-- A string, for a value or a member's name; `none` for an unfit one. -/
  | text (value : Option String)
  | scalar (value : Json)

/-- The characters of a string so far, last one first, or `none` once the string is unfit. -/
abbrev Partial := Option (List Char)

inductive Lexing
  | between
  | text (before : Partial)
  | escape (before : Partial)
  /-- In a `\u` escape: a high surrogate that waits for its partner, the value so far and the
  number of hexadecimal digits still to come. -/
  | unit (before : Partial) (high : Option Nat) (value : Nat) (missing : Nat)
  /-- A high surrogate has been read; the backslash of its partner comes next. -/
  | pairBackslash (before : Partial) (high : Nat)
  | pairU (before : Partial) (high : Nat)
  | number (before : List Char)
  | word (before : List Char)

def hexDigit? (c : Char) : Option Nat :=
  if '0' ≤ c ∧ c ≤ '9' then some (c.toNat - '0'.toNat)
  else if 'a' ≤ c ∧ c ≤ 'f' then some (c.toNat - 'a'.toNat + 10)
  else if 'A' ≤ c ∧ c ≤ 'F' then some (c.toNat - 'A'.toNat + 10)
  else none

def escaped? : Char → Option Char
  | '"' => some '"'
  | '\\' => some '\\'
  | '/' => some '/'
  | 'b' => some '\x08'
  | 'f' => some '\x0c'
  | 'n' => some '\n'
  | 'r' => some '\r'
  | 't' => some '\t'
  | _ => none

def isHighSurrogate (unit : Nat) : Bool := 0xD800 ≤ unit && unit < 0xDC00

def isLowSurrogate (unit : Nat) : Bool := 0xDC00 ≤ unit && unit < 0xE000

def afterUnit (before : Partial) (high : Option Nat) (unit : Nat) : Lexing :=
  match high with
  | some high =>
    if isLowSurrogate unit then
      .text (before.map (Char.ofNat (0x10000 + (high - 0xD800) * 0x400 + (unit - 0xDC00)) :: ·))
    else .text none
  | none =>
    if isHighSurrogate unit then .pairBackslash before unit
    else if isLowSurrogate unit then .text none
    else .text (before.map (Char.ofNat unit :: ·))

def isNumberChar (c : Char) : Bool :=
  c.isDigit || c == '-' || c == '+' || c == '.' || c == 'e' || c == 'E'

def lexBetween? (c : Char) : Option (Lexing × List Token) :=
  match c with
  | ' ' | '\n' | '\t' | '\r' => some (.between, [])
  | '{' => some (.between, [.openBrace])
  | '}' => some (.between, [.closeBrace])
  | '[' => some (.between, [.openBracket])
  | ']' => some (.between, [.closeBracket])
  | ':' => some (.between, [.colon])
  | ',' => some (.between, [.comma])
  | '"' => some (.text (some []), [])
  | _ =>
    if c.isDigit || c == '-' then some (.number [c], [])
    else if c.isLower then some (.word [c], [])
    else none

def lexText? (before : Partial) (c : Char) : Option (Lexing × List Token) :=
  if c = '"' then some (.between, [.text (before.map fun chars => String.ofList chars.reverse)])
  else if c = '\\' then some (.escape before, [])
  else if c.toNat < 0x20 then none
  else some (.text (before.map (c :: ·)), [])

def lexEscape? (before : Partial) (c : Char) : Option (Lexing × List Token) :=
  if c = 'u' then some (.unit before none 0 4, [])
  else (escaped? c).map fun plain => (.text (before.map (plain :: ·)), [])

def word? (before : List Char) : Option Token :=
  match String.ofList before.reverse with
  | "null" => some (.scalar .null)
  | "true" => some (.scalar (.bool true))
  | "false" => some (.scalar (.bool false))
  | _ => none

/-- The token that a number or a word makes when it ends; nothing else may be left open. -/
def Lexing.finish? : Lexing → Option (List Token)
  | .between => some []
  | .number before => (number? before.reverse).map fun value => [.scalar value]
  | .word before => (word? before).map fun token => [token]
  | _ => none

def Lexing.step? (state : Lexing) (c : Char) : Option (Lexing × List Token) :=
  match state with
  | .between => lexBetween? c
  | .text before => lexText? before c
  | .escape before => lexEscape? before c
  | .unit before high value missing =>
    (hexDigit? c).map fun digit =>
      if missing ≤ 1 then (afterUnit before high (value * 16 + digit), [])
      else (.unit before high (value * 16 + digit) (missing - 1), [])
  | .pairBackslash before high =>
    if c = '\\' then some (.pairU before high, []) else lexText? none c
  | .pairU before high =>
    if c = 'u' then some (.unit before (some high) 0 4, []) else lexEscape? none c
  | .number before =>
    if isNumberChar c then some (.number (c :: before), [])
    else do
      let tokens ← state.finish?
      let (next, more) ← lexBetween? c
      return (next, tokens ++ more)
  | .word before =>
    if c.isLower then some (.word (c :: before), [])
    else do
      let tokens ← state.finish?
      let (next, more) ← lexBetween? c
      return (next, tokens ++ more)

def lexFrom (state : Lexing) (found : List Token) : List Char → Option (List Token)
  | [] => state.finish?.map fun tokens => (tokens.reverse ++ found).reverse
  | c :: rest =>
    match state.step? c with
    | none => none
    | some (next, tokens) => lexFrom next (tokens.reverse ++ found) rest

def tokens? (text : List Char) : Option (List Token) := lexFrom .between [] text

end RobotPuzzle.Json
