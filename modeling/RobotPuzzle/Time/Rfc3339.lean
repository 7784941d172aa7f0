import RobotPuzzle.Text.Blank
import RobotPuzzle.Text.Numeral
import RobotPuzzle.Time.Calendar
import RobotPuzzle.Time.Instant

/-!
Instants as RFC 3339 texts. Reading takes any offset and is lenient about blanks between the parts,
missing leading zeros and years of other lengths behind a sign; writing uses universal time and the
fewest of 0, 3, 6 or 9 fraction digits that lose nothing.
-/

namespace RobotPuzzle.Time

def digitsUpTo : Nat → Nat → List Char → Nat × List Char
  | 0, value, text => (value, text)
  | _ + 1, value, [] => (value, [])
  | count + 1, value, c :: rest =>
    match Text.digit? c with
    | none => (value, c :: rest)
    | some digit => digitsUpTo count (value * 10 + digit) rest

def digits? (count : Nat) (text : List Char) : Option (Nat × List Char) :=
  match text with
  | [] => none
  | c :: _ => if (Text.digit? c).isSome then some (digitsUpTo count 0 text) else none

def part? (count : Nat) (text : List Char) : Option (Nat × List Char) :=
  digits? count (Text.trimStart text)

/-- A year: up to four digits, or any number of digits behind a sign. -/
def year? (text : List Char) : Option (Int × List Char) :=
  match Text.trimStart text with
  | '-' :: rest => (digits? rest.length rest).map fun (value, rest) => (-(value : Int), rest)
  | '+' :: rest => (digits? rest.length rest).map fun (value, rest) => ((value : Int), rest)
  | rest => (digits? 4 rest).map fun (value, rest) => ((value : Int), rest)

def mark? (mark : Char) : List Char → Option (List Char)
  | [] => none
  | c :: rest => if c = mark then some rest else none

/-- The nanoseconds of a fraction. Digits past the ninth do not count. -/
def fraction? (text : List Char) : Option (Nat × List Char) :=
  match text with
  | '.' :: rest =>
    (digits? 9 rest).map fun (value, behind) =>
      (value * Nat.pow 10 (9 - (rest.length - behind.length)),
        behind.dropWhile fun c => (Text.digit? c).isSome)
  | _ => some (0, text)

def pair? (bound : Nat) : List Char → Option (Nat × List Char)
  | first :: second :: rest => do
    let tens ← Text.digit? first
    let ones ← Text.digit? second
    if tens * 10 + ones < bound then some (tens * 10 + ones, rest) else none
  | _ => none

def hoursAndMinutes? (text : List Char) : Option (Int × List Char) := do
  let (hours, rest) ← pair? 24 text
  let (minutes, rest) ← pair? 60 (rest.dropWhile fun c => c == ':' || Text.isBlank c)
  return (((hours * 3600 + minutes * 60 : Nat) : Int), rest)

def offset? (text : List Char) : Option (Int × List Char) :=
  match text with
  | 'Z' :: rest | 'z' :: rest => some (0, rest)
  | '+' :: rest => hoursAndMinutes? rest
  | '-' :: rest | '−' :: rest =>
    (hoursAndMinutes? rest).map fun (seconds, rest) => (-seconds, rest)
  | a :: b :: c :: rest =>
    if a.toUpper = 'U' ∧ b.toUpper = 'T' ∧ c.toUpper = 'C' then some (0, rest) else none
  | _ => none

def isYear (year : Int) : Bool := -262143 ≤ year && year ≤ 262142

def instant? (text : List Char) : Option Instant := do
  let (year, rest) ← year? text
  let rest ← mark? '-' (Text.trimStart rest)
  let (month, rest) ← part? 2 rest
  let rest ← mark? '-' (Text.trimStart rest)
  let (day, rest) ← part? 2 rest
  let rest ←
    match rest with
    | 'T' :: rest | 't' :: rest | ' ' :: rest => some rest
    | _ => none
  let (hour, rest) ← part? 2 rest
  let rest ← mark? ':' (Text.trimStart rest)
  let (minute, rest) ← part? 2 rest
  let rest ← mark? ':' (Text.trimStart rest)
  let (second, rest) ← part? 2 rest
  let (nano, rest) ← fraction? rest
  let (offset, rest) ← offset? (Text.trimStart rest)
  let date : Date := ⟨year, month, day⟩
  guard ((Text.trimStart rest).isEmpty && isYear year && date.isValid)
  guard (hour < 24 && minute < 60 && second ≤ 60)
  let leap := if second = 60 then 1 else 0
  let inDay : Nat := hour * 3600 + minute * 60 + (second - leap)
  let instant : Instant :=
    { second := date.toDay * Instant.secondsPerDay + inDay - offset
      nano := nano + leap * Instant.nanosPerSecond }
  guard (isYear (Date.ofDay instant.day).year)
  return instant

def padded (width value : Nat) : String :=
  let digits := toString value
  String.ofList (List.replicate (width - digits.length) '0') ++ digits

/-- Years of four digits stand alone, all others behind a sign. -/
def yearText (year : Int) : String :=
  if 0 ≤ year ∧ year ≤ 9999 then padded 4 year.toNat
  else (if year < 0 then "-" else "+") ++ padded 4 year.natAbs

def fractionText (nano : Nat) : String :=
  if nano = 0 then ""
  else if nano % 1000000 = 0 then "." ++ padded 3 (nano / 1000000)
  else if nano % 1000 = 0 then "." ++ padded 6 (nano / 1000)
  else "." ++ padded 9 nano

end RobotPuzzle.Time

namespace RobotPuzzle

def Instant.text (instant : Instant) : String :=
  let date := Time.Date.ofDay instant.day
  let inDay := instant.secondOfDay.toNat
  let leap := if instant.isLeap then 1 else 0
  Time.yearText date.year ++ "-" ++ Time.padded 2 date.month ++ "-" ++ Time.padded 2 date.day ++
    "T" ++ Time.padded 2 (inDay / 3600) ++ ":" ++ Time.padded 2 (inDay / 60 % 60) ++ ":" ++
    Time.padded 2 (inDay % 60 + leap) ++
    Time.fractionText (instant.nano - leap * nanosPerSecond) ++ "Z"

end RobotPuzzle
