/-!
Instants in universal time. Days have 86400 seconds; a leap second is the second before it with a
nanosecond part of one second and more.
-/

namespace RobotPuzzle

structure Instant where
  /-- Seconds since 1970-01-01T00:00:00Z. -/
  second : Int
  /-- Nanoseconds, below two seconds. -/
  nano : Nat
deriving DecidableEq, Repr

namespace Instant

def nanosPerSecond : Nat := 1000000000

def secondsPerDay : Nat := 86400

def day (instant : Instant) : Int := instant.second / secondsPerDay

def secondOfDay (instant : Instant) : Int := instant.second % secondsPerDay

def isLeap (instant : Instant) : Bool := nanosPerSecond ≤ instant.nano

/-- The leap seconds between two instants that their seconds do not count: the one that the
instant earlier in its day stands in. -/
def uncounted (later earlier : Instant) : Int :=
  if earlier.secondOfDay < later.secondOfDay ∧ earlier.isLeap then 1
  else if later.secondOfDay < earlier.secondOfDay ∧ later.isLeap then -1
  else 0

def nanosSince (later earlier : Instant) : Int :=
  (later.second - earlier.second + uncounted later earlier) * nanosPerSecond +
    (later.nano - earlier.nano)

/-- The time from `earlier` to `later` in whole milliseconds, cut toward zero. -/
def millisSince (later earlier : Instant) : Int := (later.nanosSince earlier).tdiv 1000000

end Instant

end RobotPuzzle
