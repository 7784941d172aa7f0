/-!
The Gregorian calendar, extended to all years: days are counted from 1970-01-01.
-/

namespace RobotPuzzle.Time

structure Date where
  year : Int
  month : Nat
  day : Nat
deriving DecidableEq, Repr

def isLeapYear (year : Int) : Bool := year % 4 == 0 && (year % 100 != 0 || year % 400 == 0)

def daysInMonth (year : Int) (month : Nat) : Nat :=
  if month = 2 then if isLeapYear year then 29 else 28
  else if month ∈ [4, 6, 9, 11] then 30
  else 31

def Date.isValid (date : Date) : Bool :=
  1 ≤ date.month && date.month ≤ 12 && 1 ≤ date.day &&
    date.day ≤ daysInMonth date.year date.month

/-- The days from 0000-03-01 to 1970-01-01. -/
def epochOffset : Int := 719468

/-- The day of a date. Years are taken to begin in March, so that a leap day comes last, and in
blocks of four hundred, all of 146097 days. -/
def Date.toDay (date : Date) : Int :=
  let year := if date.month ≤ 2 then date.year - 1 else date.year
  let block := year / 400
  let yearOfBlock := year % 400
  let month : Int := ((date.month + 9) % 12 : Nat)
  let dayOfYear := (153 * month + 2) / 5 + date.day - 1
  block * 146097 + yearOfBlock * 365 + yearOfBlock / 4 - yearOfBlock / 100 + dayOfYear - epochOffset

def Date.ofDay (day : Int) : Date :=
  let shifted := day + epochOffset
  let block := shifted / 146097
  let dayOfBlock := shifted % 146097
  let yearOfBlock :=
    (dayOfBlock - dayOfBlock / 1460 + dayOfBlock / 36524 - dayOfBlock / 146096) / 365
  let dayOfYear := dayOfBlock - (365 * yearOfBlock + yearOfBlock / 4 - yearOfBlock / 100)
  let place := ((5 * dayOfYear + 2) / 153).toNat
  let month := if place < 10 then place + 3 else place - 9
  let year := yearOfBlock + block * 400
  { year := if month ≤ 2 then year + 1 else year
    month
    day := (dayOfYear - (153 * place + 2) / 5 + 1).toNat }

end RobotPuzzle.Time
