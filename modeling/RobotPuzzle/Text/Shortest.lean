/-!
The shortest decimal of a double: the fewest significant digits that read back as the same double,
and of those decimals the nearest one. All arithmetic is exact on natural numbers.
-/

namespace RobotPuzzle.Text

/-- A positive finite double as `mantissa * 2 ^ exponent`. -/
structure Dyadic where
  mantissa : Nat
  exponent : Int
deriving DecidableEq, Repr

def leastMantissa : Nat := 0x10000000000000

def signBit : Nat := 0x8000000000000000

/-- The size of a finite double from its bits. Zero has mantissa zero. -/
def Dyadic.ofBits (bits : Nat) : Dyadic :=
  let fraction : Nat := bits % leastMantissa
  let scale : Nat := bits % signBit / leastMantissa
  if scale = 0 then ⟨fraction, -1074⟩ else ⟨leastMantissa + fraction, scale - 1075⟩

structure Ratio where
  num : Nat
  den : Nat
deriving DecidableEq, Repr

namespace Ratio

def le (left right : Ratio) : Bool := left.num * right.den ≤ right.num * left.den

def lt (left right : Ratio) : Bool := left.num * right.den < right.num * left.den

def ofDyadic (dyadic : Dyadic) : Ratio :=
  if dyadic.exponent < 0 then ⟨dyadic.mantissa, Nat.pow 2 dyadic.exponent.natAbs⟩
  else ⟨dyadic.mantissa * Nat.pow 2 dyadic.exponent.natAbs, 1⟩

def ofDecimal (digits : Nat) (power : Int) : Ratio :=
  if power < 0 then ⟨digits, Nat.pow 10 power.natAbs⟩ else ⟨digits * Nat.pow 10 power.natAbs, 1⟩

end Ratio

/-- The numbers that round to a double: from the middle between it and its lower neighbour to the
middle between it and its upper one. An even mantissa takes both ends. -/
structure Rounding where
  low : Ratio
  high : Ratio
  closed : Bool

def Rounding.ofDyadic (dyadic : Dyadic) : Rounding :=
  let isPower := dyadic.mantissa == leastMantissa && -1074 < dyadic.exponent
  { low := Ratio.ofDyadic ⟨4 * dyadic.mantissa - (if isPower then 1 else 2), dyadic.exponent - 2⟩
    high := Ratio.ofDyadic ⟨4 * dyadic.mantissa + 2, dyadic.exponent - 2⟩
    closed := dyadic.mantissa % 2 == 0 }

def Rounding.contains (rounding : Rounding) (value : Ratio) : Bool :=
  if rounding.closed then rounding.low.le value && value.le rounding.high
  else rounding.low.lt value && value.lt rounding.high

def leadingPower (value : Ratio) : Int :=
  if value.den ≤ value.num then (value.num / value.den).log2 * 1233 / 4096 |> adjust value 2
  else -(((value.den / value.num).log2 + 1 : Nat) * 1233 / 4096 + 1 : Nat) |> adjust value 3
where
  /-- Raises an estimate that is at most `count` too low. -/
  adjust (value : Ratio) : Nat → Int → Int
    | 0, power => power
    | count + 1, power =>
      if (Ratio.ofDecimal 1 (power + 1)).le value then adjust value count (power + 1) else power

structure Decimal where
  digits : Nat
  power : Int
deriving DecidableEq, Repr

/-- The decimal with last digit at `power` that is nearest to `value` among those that round to the
double; a tie goes to the even digit. -/
def nearestOn? (rounding : Rounding) (value : Ratio) (power : Int) : Option Decimal :=
  let unit := Ratio.ofDecimal 1 power
  let below := value.num * unit.den / (value.den * unit.num)
  let lowFits := rounding.contains (Ratio.ofDecimal below power)
  let highFits := rounding.contains (Ratio.ofDecimal (below + 1) power)
  let middle := Ratio.ofDecimal (2 * below + 1) power
  let twice : Ratio := ⟨2 * value.num, value.den⟩
  if lowFits && highFits then
    if twice.lt middle || (twice.le middle && below % 2 == 0) then some ⟨below, power⟩
    else some ⟨below + 1, power⟩
  else if lowFits then some ⟨below, power⟩
  else if highFits then some ⟨below + 1, power⟩
  else none

/-- Tries one digit more at a time. Seventeen digits always suffice. -/
def shortestFrom (rounding : Rounding) (value : Ratio) (power : Int) : Nat → Decimal
  | 0 => ⟨0, 0⟩
  | count + 1 =>
    match nearestOn? rounding value power with
    | some decimal => decimal
    | none => shortestFrom rounding value (power - 1) count

/-- The same number with its last digit, when that is a zero, moved into the power. -/
def Decimal.dropZero (decimal : Decimal) : Decimal :=
  if decimal.digits % 10 = 0 then ⟨decimal.digits / 10, decimal.power + 1⟩ else decimal

/-- The shortest decimal of a positive double. Its last digit can be a zero only where a single
nine is rounded up to ten. -/
def Dyadic.shortest (dyadic : Dyadic) : Decimal :=
  let value := Ratio.ofDyadic dyadic
  (shortestFrom (Rounding.ofDyadic dyadic) value (leadingPower value) 17).dropZero

/-- Where a format puts the decimal point: a number is written without an exponent when its point
falls behind more than `leastPoint` and at most `mostPoint` places, counted from its first digit. -/
structure PointRange where
  leastPoint : Int
  mostPoint : Int

def zeros (count : Nat) : String := String.ofList (List.replicate count '0')

def exponentText (exponent : Int) : String :=
  (if exponent < 0 then "e-" else "e+") ++ toString exponent.natAbs

def Decimal.text (range : PointRange) (decimal : Decimal) : String :=
  let digits := toString decimal.digits
  let point : Int := digits.length + decimal.power
  if range.leastPoint < point ∧ point ≤ range.mostPoint then
    if 0 ≤ decimal.power then digits ++ zeros decimal.power.toNat ++ ".0"
    else if 0 < point then
      String.ofList (digits.toList.take point.toNat) ++ "." ++
        String.ofList (digits.toList.drop point.toNat)
    else "0." ++ zeros point.natAbs ++ digits
  else
    let tail := digits.toList.drop 1
    let fraction := if tail.isEmpty then "" else "." ++ String.ofList tail
    String.ofList (digits.toList.take 1) ++ fraction ++ exponentText (point - 1)

def floatText (range : PointRange) (value : Float) : String :=
  let bits := value.toBits.toNat
  let sign := if bits < signBit then "" else "-"
  let size := Dyadic.ofBits bits
  sign ++ (if size.mantissa = 0 then "0.0" else size.shortest.text range)

end RobotPuzzle.Text
