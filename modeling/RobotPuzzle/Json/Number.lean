import RobotPuzzle.Json.Basic
import RobotPuzzle.Text.Numeral

/-!
The value of a number literal. Integers of the 64-bit ranges are exact. Any other literal is a
64-bit significand scaled by a power of ten: digits past the 64 bits are dropped, and the product
or quotient is rounded once. A literal beyond the largest double is unfit.
-/

namespace RobotPuzzle.Json

structure Literal where
  negative : Bool
  whole : List Nat
  /-- Digits behind the point; without a point there are none. -/
  fraction : List Nat
  hasPoint : Bool
  /-- Whether the exponent is negative, and its digits. -/
  exponent : Option (Bool × List Nat)
deriving DecidableEq, Repr

def digitPrefix : List Char → List Nat × List Char
  | [] => ([], [])
  | c :: rest =>
    match Text.digit? c with
    | none => ([], c :: rest)
    | some digit => (digit :: (digitPrefix rest).1, (digitPrefix rest).2)

def exponentPart? : List Char → Option (Option (Bool × List Nat))
  | [] => some none
  | mark :: rest =>
    if mark ≠ 'e' ∧ mark ≠ 'E' then none
    else
      let (negative, digits) :=
        match rest with
        | '+' :: digits => (false, digits)
        | '-' :: digits => (true, digits)
        | digits => (false, digits)
      match digitPrefix digits with
      | ([], _) => none
      | (exponent, []) => some (some (negative, exponent))
      | (_, _ :: _) => none

/-- Splits a literal. The whole part has no leading zero; a point and an exponent mark are
followed by digits. -/
def Literal.ofText? (text : List Char) : Option Literal :=
  let (negative, body) :=
    match text with
    | '-' :: body => (true, body)
    | body => (false, body)
  match digitPrefix body with
  | ([], _) => none
  | (0 :: _ :: _, _) => none
  | (whole, '.' :: behind) =>
    match digitPrefix behind with
    | ([], _) => none
    | (fraction, rest) => (exponentPart? rest).map fun exponent =>
        ⟨negative, whole, fraction, true, exponent⟩
  | (whole, rest) => (exponentPart? rest).map fun exponent => ⟨negative, whole, [], false, exponent⟩

def valueOf (digits : List Nat) : Nat := digits.foldl (fun value digit => value * 10 + digit) 0

structure Scaled where
  significand : Nat
  power : Int
deriving DecidableEq, Repr

/-- Takes the digits of the whole part as long as they fit in 64 bits; each later one counts as a
factor of ten. -/
def Scaled.takeWhole (significand : Nat) : List Nat → Scaled
  | [] => ⟨significand, 0⟩
  | digit :: rest =>
    if significand * 10 + digit < UInt64.size then takeWhole (significand * 10 + digit) rest
    else ⟨significand, (rest.length + 1 : Nat)⟩

/-- Takes the digits behind the point up to the first that does not fit. -/
def Scaled.takeFraction (scaled : Scaled) : List Nat → Scaled
  | [] => scaled
  | digit :: rest =>
    if scaled.significand * 10 + digit < UInt64.size then
      takeFraction ⟨scaled.significand * 10 + digit, scaled.power - 1⟩ rest
    else scaled

def powerOfTen (exponent : Nat) : Float := Float.ofScientific 1 false exponent

/-- Divides by a power of ten, by at most `10^308` at a time. -/
def scaleDown (value : Float) (exponent : Nat) : Float :=
  if exponent ≤ 308 then value / powerOfTen exponent
  else if value == 0 then value
  else scaleDown (value / powerOfTen 308) (exponent - 308)
termination_by exponent

def Scaled.toFloat? (scaled : Scaled) : Option Float :=
  let value := scaled.significand.toUInt64.toFloat
  if scaled.power < 0 then some (scaleDown value scaled.power.natAbs)
  else if scaled.power ≤ 308 then
    let product := value * powerOfTen scaled.power.toNat
    if product.isFinite then some product else none
  else if value == 0 then some value
  else none

def maxExponent : Nat := 0x7FFFFFFF

/-- The size of a literal as a double. An exponent of more than 31 bits gives zero or no value. -/
def Literal.magnitude? (literal : Literal) : Option Float :=
  let scaled := (Scaled.takeWhole 0 literal.whole).takeFraction literal.fraction
  match literal.exponent with
  | none => scaled.toFloat?
  | some (negative, digits) =>
    let exponent := valueOf digits
    if exponent ≤ maxExponent then
      let power := if negative then scaled.power - exponent else scaled.power + exponent
      Scaled.toFloat? ⟨scaled.significand, power⟩
    else if scaled.significand = 0 ∨ negative then some 0
    else none

/-- The number of a literal: an integer in range as itself, except that `-0` is a double. -/
def ofLiteral (literal : Literal) : Json :=
  let size := valueOf literal.whole
  let isInteger := !literal.hasPoint && literal.exponent.isNone
  if isInteger ∧ !literal.negative ∧ size < UInt64.size then .int size
  else if isInteger ∧ literal.negative ∧ 0 < size ∧ size ≤ 0x8000000000000000 then .int (-size)
  else
    match literal.magnitude? with
    | none => .unfit
    | some value => .float (if literal.negative then -value else value)

def number? (text : List Char) : Option Json := (Literal.ofText? text).map ofLiteral

end RobotPuzzle.Json
