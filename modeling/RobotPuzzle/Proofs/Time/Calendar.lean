import Mathlib.Tactic.IntervalCases
import RobotPuzzle.Time.Calendar

/-!
Every day has a date of the calendar, and the date leads back to the day. A block of four hundred
years ends with a leap day that no century takes away, so its last day is looked at apart.
-/

namespace RobotPuzzle.Time

/-- The year of a block in which a day of the block falls. -/
def yearOf (day : Int) : Int := (day - day / 1460 + day / 36524 - day / 146096) / 365

def dayOfYear (day : Int) : Int :=
  day - (365 * yearOf day + yearOf day / 4 - yearOf day / 100)

def EndsLong (year : Int) : Prop := year % 4 = 3 ∧ (year % 100 ≠ 99 ∨ year = 399)

instance : DecidablePred EndsLong := fun _ => inferInstanceAs (Decidable (_ ∧ _))

theorem yearOf_div_four {day : Int} (lower : 0 ≤ day) (upper : day < 146096) :
    day / 1460 - 1 ≤ yearOf day / 4 ∧ yearOf day / 4 ≤ day / 1460 := by
  have fourYears : yearOf day / 4 = (day - day / 1460 + day / 36524) / 1460 := by
    simp only [yearOf]
    omega
  have centuries : day / 36524 ≤ day / 1460 := by omega
  have leapDays : day / 1460 ≤ day / 36524 + 100 := by omega
  omega

theorem yearOf_div_hundred {day : Int} (lower : 0 ≤ day) (upper : day < 146096) :
    yearOf day / 100 = day / 36524 := by
  have whole : yearOf day = (day - day / 1460 + day / 36524) / 365 := by
    simp only [yearOf]
    omega
  have centuries : 0 ≤ day / 36524 ∧ day / 36524 ≤ 3 := by omega
  have least : 100 * (day / 36524) ≤ yearOf day := by omega
  have most : yearOf day ≤ 100 * (day / 36524) + 99 := by omega
  omega

theorem dayOfYear_bounds {day : Int} (lower : 0 ≤ day) (upper : day < 146097) :
    (0 ≤ yearOf day ∧ yearOf day ≤ 399) ∧ (0 ≤ dayOfYear day ∧ dayOfYear day ≤ 365) ∧
      (dayOfYear day = 365 → EndsLong (yearOf day)) := by
  by_cases last : day = 146096
  · subst last
    decide
  · have before : day < 146096 := by omega
    have fourYears := yearOf_div_four lower before
    have hundredYears := yearOf_div_hundred lower before
    have whole : yearOf day = (day - day / 1460 + day / 36524) / 365 := by
      simp only [yearOf]
      omega
    have centuries : day / 36524 ≤ day / 1460 := by omega
    have leapDays : day / 1460 ≤ day / 36524 + 100 := by omega
    simp only [dayOfYear, EndsLong]
    refine ⟨⟨by omega, by omega⟩, ⟨by omega, by omega⟩, fun long => ⟨by omega, .inl (by omega)⟩⟩

theorem month_bounds {day : Int} (lower : 0 ≤ day) (upper : day ≤ 365) :
    ∃ place : Nat, (5 * day + 2) / 153 = place ∧ place ≤ 11 ∧ (153 * (place : Int) + 2) / 5 ≤ day ∧
      day < (153 * ((place : Int) + 1) + 2) / 5 := by
  have nonneg : 0 ≤ (5 * day + 2) / 153 := by omega
  refine ⟨((5 * day + 2) / 153).toNat, (Int.toNat_of_nonneg nonneg).symm, ?_⟩
  omega

namespace Date

def ofParts (block year day : Int) : Date :=
  let place := ((5 * day + 2) / 153).toNat
  let month := if place < 10 then place + 3 else place - 9
  { year := if month ≤ 2 then year + block * 400 + 1 else year + block * 400
    month
    day := (day - (153 * place + 2) / 5 + 1).toNat }

theorem ofDay_eq (day : Int) :
    ofDay day = ofParts ((day + epochOffset) / 146097) (yearOf ((day + epochOffset) % 146097))
      (dayOfYear ((day + epochOffset) % 146097)) := rfl

theorem toDay_ofParts (block : Int) {year day : Int} (years : 0 ≤ year ∧ year ≤ 399)
    (days : 0 ≤ day ∧ day ≤ 365) :
    (ofParts block year day).toDay =
      block * 146097 + year * 365 + year / 4 - year / 100 + day - epochOffset := by
  obtain ⟨place, placed, most, before, -⟩ := month_bounds days.1 days.2
  simp only [ofParts, toDay, placed, Int.toNat_natCast]
  by_cases early : place < 10
  · have behind : ¬ place + 3 ≤ 2 := by omega
    have turned : (place + 3 + 9) % 12 = place := by omega
    simp only [if_pos early, if_neg behind, turned]
    omega
  · have within : place - 9 ≤ 2 := by omega
    have turned : (place - 9 + 9) % 12 = place := by omega
    simp only [if_neg early, if_pos within, turned]
    omega

theorem isValid_ofParts (block year : Int) {day : Int} (days : 0 ≤ day ∧ day ≤ 365)
    (last : day = 365 → EndsLong year) : (ofParts block year day).isValid = true := by
  obtain ⟨place, placed, most, before, behind⟩ := month_bounds days.1 days.2
  simp only [ofParts, isValid, placed, Int.toNat_natCast, Bool.and_eq_true, decide_eq_true_eq]
  -- Month by month: only the last one has to look at the year.
  interval_cases place <;> simp [daysInMonth, isLeapYear, EndsLong] at * <;> omega

theorem dayOfBlock_bounds (day : Int) :
    0 ≤ (day + epochOffset) % 146097 ∧ (day + epochOffset) % 146097 < 146097 := by
  omega

theorem toDay_ofDay (day : Int) : (ofDay day).toDay = day := by
  obtain ⟨years, days, -⟩ := dayOfYear_bounds (dayOfBlock_bounds day).1 (dayOfBlock_bounds day).2
  rw [ofDay_eq, toDay_ofParts _ years days]
  simp only [dayOfYear]
  omega

theorem isValid_ofDay (day : Int) : (ofDay day).isValid = true := by
  obtain ⟨-, days, last⟩ := dayOfYear_bounds (dayOfBlock_bounds day).1 (dayOfBlock_bounds day).2
  rw [ofDay_eq]
  exact isValid_ofParts _ _ days last

end Date

end RobotPuzzle.Time
