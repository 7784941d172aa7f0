/-!
Unsigned decimal numerals: one or more ASCII digits, after at most one plus sign. Leading zeros
are allowed, and the value has to stay below a bound.
-/

namespace RobotPuzzle.Text

/-- Why a text is no numeral below the bound. The first fault from the left decides. -/
inductive NumeralError
  | empty
  | invalidDigit
  | tooLarge
deriving DecidableEq, Repr

def NumeralError.message : NumeralError → String
  | .empty => "cannot parse integer from empty string"
  | .invalidDigit => "invalid digit found in string"
  | .tooLarge => "number too large to fit in target type"

def digit? (c : Char) : Option Nat :=
  if '0' ≤ c ∧ c ≤ '9' then some (c.toNat - '0'.toNat) else none

def digitsFrom (bound value : Nat) : List Char → Except NumeralError Nat
  | [] => .ok value
  | c :: rest =>
    match digit? c with
    | none => .error .invalidDigit
    | some digit =>
      if value * 10 + digit < bound then digitsFrom bound (value * 10 + digit) rest
      else .error .tooLarge

/-- The number below `bound` that a text denotes. A sign with nothing behind it is no number. -/
def numeral (bound : Nat) : List Char → Except NumeralError Nat
  | [] => .error .empty
  | ['+'] => .error .invalidDigit
  | '+' :: digits => digitsFrom bound 0 digits
  | digits => digitsFrom bound 0 digits

def numeral? (bound : Nat) (text : List Char) : Option Nat := (numeral bound text).toOption

end RobotPuzzle.Text
