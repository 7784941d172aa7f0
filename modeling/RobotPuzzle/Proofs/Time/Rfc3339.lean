import RobotPuzzle.Proofs.Text.Decimal
import RobotPuzzle.Proofs.Time.Calendar
import RobotPuzzle.Time.Rfc3339

/-!
The text of an instant is read back as that instant, and every instant that a text is read as has
such a text.
-/

namespace RobotPuzzle

/-- The instants of the calendar: their year is one that dates can have, and a leap second is the
last of its minute. -/
structure Instant.Civil (instant : Instant) : Prop where
  year : Time.isYear (Time.Date.ofDay instant.day).year = true
  nano : instant.nano < 2 * nanosPerSecond
  leap : instant.isLeap = true → instant.second % 60 = 59

namespace Time

open Text (Denotes IsDigit)

variable {bound count value width : Nat} {digits rest text : List Char}

def Stops (text : List Char) : Prop := ∀ c ∈ text.head?, ¬IsDigit c

theorem digit?_of_isDigit {c : Char} (inside : IsDigit c) :
    Text.digit? c = some (Text.digitValue c) :=
  Text.digit?_eq_some_iff.2 ⟨inside, rfl⟩

theorem digit?_of_not_isDigit {c : Char} (outside : ¬IsDigit c) : Text.digit? c = none := by
  cases found : Text.digit? c with
  | none => rfl
  | some digit => exact absurd (Text.digit?_eq_some_iff.1 found).1 outside

theorem digitsUpTo_append (inside : ∀ c ∈ digits, IsDigit c) (fits : digits.length ≤ count)
    (stops : digits.length = count ∨ Stops rest) :
    digitsUpTo count value (digits ++ rest) = (Text.decimalFrom value digits, rest) := by
  induction digits generalizing count value with
  | nil =>
      cases count with
      | zero => rfl
      | succ count =>
          cases rest with
          | nil => rfl
          | cons c rest =>
              have outside : ¬IsDigit c := stops.resolve_left (by simp) c rfl
              simp [digitsUpTo, digit?_of_not_isDigit outside, Text.decimalFrom]
  | cons c digits ih =>
      rw [List.forall_mem_cons] at inside
      rw [List.length_cons] at fits stops
      obtain ⟨count, rfl⟩ : ∃ before, count = before + 1 := ⟨count - 1, by omega⟩
      have behind := @ih count (value * 10 + Text.digitValue c) inside.2 (by omega)
        (stops.imp_left (by omega))
      rw [List.cons_append, digitsUpTo, digit?_of_isDigit inside.1]
      exact behind

theorem digits?_append (rest : List Char) (denotes : Denotes bound digits value)
    (fits : digits.length ≤ count) (stops : digits.length = count ∨ Stops rest) :
    digits? count (digits ++ rest) = some (value, rest) := by
  obtain ⟨c, digits, rfl⟩ := List.exists_cons_of_ne_nil denotes.nonempty
  have first := digit?_of_isDigit (denotes.inside c List.mem_cons_self)
  have all := @digitsUpTo_append count 0 _ rest denotes.inside fits stops
  rw [denotes.value, List.cons_append] at all
  simp [digits?, first, all]

theorem trimStart_append (denotes : Denotes bound digits value) (rest : List Char) :
    Text.trimStart (digits ++ rest) = digits ++ rest := by
  obtain ⟨c, digits, rfl⟩ := List.exists_cons_of_ne_nil denotes.nonempty
  obtain ⟨lower, upper⟩ := denotes.inside c List.mem_cons_self
  have low : 48 ≤ c.toNat := lower
  have high : c.toNat ≤ 57 := upper
  have dark : Text.isBlank c = false := by
    simp only [Text.isBlank, Bool.or_eq_false_iff, Bool.and_eq_false_iff, decide_eq_false_iff_not,
      beq_eq_false_iff_ne]
    omega
  simp [Text.trimStart, dark]

theorem toList_padded (width value : Nat) : (padded width value).toList =
    List.replicate (width - (Nat.toDigits 10 value).length) '0' ++ Nat.toDigits 10 value := by
  simp [padded, ← String.length_toList, Nat.toList_repr]

theorem denotes_padded (width : Nat) (below : value < bound) :
    Denotes bound (padded width value).toList value := by
  rw [toList_padded]
  exact (Text.denotes_toDigits below).zeros _

theorem length_padded (positive : 0 < width) (below : value < 10 ^ width) :
    (padded width value).toList.length = width := by
  have short := (Nat.length_toDigits_le_iff (by decide) positive).2 below
  rw [toList_padded, List.length_append, List.length_replicate]
  omega

theorem part?_padded (below : value < 100) (rest : List Char) :
    part? 2 ((padded 2 value).toList ++ rest) = some (value, rest) := by
  have denotes := denotes_padded 2 below
  have length := @length_padded value 2 (by decide) below
  rw [part?, trimStart_append denotes]
  exact digits?_append rest denotes (Nat.le_of_eq length) (.inl length)

theorem year?_minus (text : List Char) : year? ('-' :: text) =
    (digits? text.length text).map fun (value, rest) => (-(value : Int), rest) := rfl

theorem year?_plus (text : List Char) : year? ('+' :: text) =
    (digits? text.length text).map fun (value, rest) => ((value : Int), rest) := rfl

theorem year?_yearText (year : Int) (stops : Stops rest) :
    year? ((yearText year).toList ++ rest) = some (year, rest) := by
  rw [yearText]
  split
  next short =>
    have denotes := denotes_padded 4 (Nat.lt_succ_self year.toNat)
    have length := @length_padded year.toNat 4 (by decide) (by omega)
    have read := digits?_append rest denotes (Nat.le_of_eq length) (.inl length)
    obtain ⟨c, digits, first⟩ := List.exists_cons_of_ne_nil denotes.nonempty
    have inside : IsDigit c := denotes.inside c (by simp [first])
    rw [year?, trimStart_append denotes]
    rw [first, List.cons_append] at read ⊢
    split
    next same =>
      obtain ⟨rfl, -⟩ := List.cons.inj same
      exact absurd inside (by decide)
    next same =>
      obtain ⟨rfl, -⟩ := List.cons.inj same
      exact absurd inside (by decide)
    next =>
      simp only [read, Option.map_some, Option.some.injEq, Prod.mk.injEq, and_true]
      omega
  next long =>
    have denotes := denotes_padded 4 (Nat.lt_succ_self year.natAbs)
    have read := digits?_append rest denotes
      (List.length_append ▸ Nat.le_add_right _ rest.length) (.inr stops)
    simp only [String.toList_append, List.append_assoc]
    split
    next negative =>
      rw [show "-".toList = ['-'] from rfl, List.singleton_append, year?_minus, read]
      simp only [Option.map_some, Option.some.injEq, Prod.mk.injEq, and_true]
      omega
    next positive =>
      rw [show "+".toList = ['+'] from rfl, List.singleton_append, year?_plus, read]
      simp only [Option.map_some, Option.some.injEq, Prod.mk.injEq, and_true]
      omega

theorem fraction?_padded (positive : 0 < width) (short : width ≤ 9) (below : value < 10 ^ width) :
    fraction? ('.' :: ((padded width value).toList ++ ['Z'])) =
      some (value * 10 ^ (9 - width), ['Z']) := by
  have length := length_padded positive below
  have stops : Stops ['Z'] := by simp [Stops, IsDigit]
  have read := digits?_append _ (denotes_padded width below) (length ▸ short) (.inr stops)
  have used : ((padded width value).toList ++ ['Z']).length - ['Z'].length = width := by
    rw [List.length_append, Nat.add_sub_cancel, length]
  have last : ['Z'].dropWhile (fun c => (Text.digit? c).isSome) = ['Z'] := rfl
  simp only [fraction?, read, Option.map_some, used, last, Nat.pow_eq]

theorem toList_point (text : String) : ("." ++ text).toList = '.' :: text.toList := by
  simp

theorem fraction?_fractionText {nano : Nat} (below : nano < Instant.nanosPerSecond) :
    fraction? ((fractionText nano).toList ++ ['Z']) = some (nano, ['Z']) := by
  rw [Instant.nanosPerSecond] at below
  simp only [fractionText]
  split
  next none => subst none; rfl
  next =>
    split
    next millis =>
      rw [toList_point, List.cons_append, fraction?_padded (by decide) (by decide) (by omega)]
      simp only [Option.some.injEq, Prod.mk.injEq, and_true]
      omega
    next =>
      split
      next micros =>
        rw [toList_point, List.cons_append, fraction?_padded (by decide) (by decide) (by omega)]
        simp only [Option.some.injEq, Prod.mk.injEq, and_true]
        omega
      next =>
        rw [toList_point, List.cons_append, fraction?_padded (by decide) (by decide) (by omega)]
        simp

/-! Reading in four steps: a date, a time of day, an offset, and the instant of them all. -/

def date? (text : List Char) : Option (Date × List Char) := do
  let (year, rest) ← year? text
  let rest ← mark? '-' (Text.trimStart rest)
  let (month, rest) ← part? 2 rest
  let rest ← mark? '-' (Text.trimStart rest)
  let (day, rest) ← part? 2 rest
  return (⟨year, month, day⟩, rest)

def separator? : List Char → Option (List Char)
  | 'T' :: rest | 't' :: rest | ' ' :: rest => some rest
  | _ => none

/-- A time of day, in which a leap second is the sixtieth of its minute. -/
structure Clock where
  hour : Nat
  minute : Nat
  second : Nat
  nano : Nat

def clock? (text : List Char) : Option (Clock × List Char) := do
  let (hour, rest) ← part? 2 text
  let rest ← mark? ':' (Text.trimStart rest)
  let (minute, rest) ← part? 2 rest
  let rest ← mark? ':' (Text.trimStart rest)
  let (second, rest) ← part? 2 rest
  let (nano, rest) ← fraction? rest
  return (⟨hour, minute, second, nano⟩, rest)

def Clock.leap (clock : Clock) : Nat := if clock.second = 60 then 1 else 0

def Clock.inDay (clock : Clock) : Nat :=
  clock.hour * 3600 + clock.minute * 60 + (clock.second - clock.leap)

def Clock.isValid (clock : Clock) : Bool :=
  clock.hour < 24 && clock.minute < 60 && clock.second ≤ 60

def instantAt (date : Date) (clock : Clock) (offset : Int) : Instant where
  second := date.toDay * Instant.secondsPerDay + clock.inDay - offset
  nano := clock.nano + clock.leap * Instant.nanosPerSecond

def assemble? (date : Date) (clock : Clock) (offset : Int) (rest : List Char) : Option Instant := do
  guard ((Text.trimStart rest).isEmpty && isYear date.year && date.isValid)
  guard clock.isValid
  guard (isYear (Date.ofDay (instantAt date clock offset).day).year)
  return instantAt date clock offset

theorem instant?_eq (text : List Char) : instant? text = (date? text).bind fun (date, rest) =>
    (separator? rest).bind fun rest => (clock? rest).bind fun (clock, rest) =>
    (offset? (Text.trimStart rest)).bind fun (offset, rest) =>
    assemble? date clock offset rest := by
  simp only [date?, clock?, Option.bind_eq_bind, Option.bind_assoc, Option.pure_def,
    Option.bind_some]
  refine Option.bind_congr fun ⟨year, rest⟩ _ => ?_
  refine Option.bind_congr fun rest _ => ?_
  refine Option.bind_congr fun ⟨month, rest⟩ _ => ?_
  refine Option.bind_congr fun rest _ => ?_
  refine Option.bind_congr fun ⟨day, rest⟩ _ => ?_
  dsimp only
  fun_cases separator? rest
  case case4 noLetter noSmall noBlank =>
    split
    · exact (noLetter _ rfl).elim
    · exact (noSmall _ rfl).elim
    · exact (noBlank _ rfl).elim
    · rfl
  all_goals rfl

theorem assemble?_eq_some_iff {date : Date} {clock : Clock} {offset : Int} {instant : Instant} :
    assemble? date clock offset rest = some instant ↔
      (Text.trimStart rest = [] ∧ isYear date.year = true ∧ date.isValid = true) ∧
      clock.isValid = true ∧ isYear (Date.ofDay instant.day).year = true ∧
      instantAt date clock offset = instant := by
  simp only [assemble?, Option.bind_eq_bind, Option.bind_eq_some_iff, Option.guard_eq_some',
    Bool.and_eq_true, List.isEmpty_iff, Option.pure_def, Option.some.injEq]
  constructor
  · rintro ⟨_, ⟨⟨ended, inRange⟩, valid⟩, _, timely, _, year, rfl⟩
    exact ⟨⟨ended, inRange, valid⟩, timely, year, rfl⟩
  · rintro ⟨⟨ended, inRange, valid⟩, timely, year, rfl⟩
    exact ⟨(), ⟨⟨ended, inRange⟩, valid⟩, (), timely, (), year, rfl⟩

theorem mark?_cons (mark : Char) (dark : Text.isBlank mark = false) (rest : List Char) :
    mark? mark (Text.trimStart (mark :: rest)) = some rest := by
  simp [Text.trimStart, dark, mark?]

theorem Date.lt_hundred {date : Date} (valid : date.isValid = true) :
    date.month < 100 ∧ date.day < 100 := by
  simp only [isValid, Bool.and_eq_true, decide_eq_true_eq] at valid
  have most : daysInMonth date.year date.month ≤ 31 := by
    simp only [daysInMonth]
    split
    · split <;> decide
    · split <;> decide
  omega

theorem date?_text {date : Date} (valid : date.isValid = true) (rest : List Char) :
    date? ((yearText date.year).toList ++ '-' :: ((padded 2 date.month).toList ++
      '-' :: ((padded 2 date.day).toList ++ rest))) = some (date, rest) := by
  obtain ⟨month, day⟩ := date.lt_hundred valid
  have dash : ∀ rest, Stops ('-' :: rest) := fun rest => by simp [Stops, IsDigit]
  simp only [date?, Option.bind_eq_bind, year?_yearText _ (dash _), part?_padded month,
    part?_padded day, mark?_cons '-' rfl, Option.bind_some, Option.pure_def]

theorem clock?_text {clock : Clock} (valid : clock.isValid = true)
    (small : clock.nano < Instant.nanosPerSecond) :
    clock? ((padded 2 clock.hour).toList ++ ':' :: ((padded 2 clock.minute).toList ++
      ':' :: ((padded 2 clock.second).toList ++ ((fractionText clock.nano).toList ++ ['Z'])))) =
    some (clock, ['Z']) := by
  simp only [Clock.isValid, Bool.and_eq_true, decide_eq_true_eq] at valid
  have hour : clock.hour < 100 := by omega
  have minute : clock.minute < 100 := by omega
  have second : clock.second < 100 := by omega
  simp only [clock?, Option.bind_eq_bind, part?_padded hour, part?_padded minute,
    part?_padded second, mark?_cons ':' rfl, fraction?_fractionText small,
    Option.bind_some, Option.pure_def]

def clockOf (instant : Instant) : Clock where
  hour := instant.secondOfDay.toNat / 3600
  minute := instant.secondOfDay.toNat / 60 % 60
  second := instant.secondOfDay.toNat % 60 + if instant.isLeap then 1 else 0
  nano := instant.nano - (if instant.isLeap then 1 else 0) * Instant.nanosPerSecond

theorem toList_text (instant : Instant) : instant.text.toList =
    (yearText (Date.ofDay instant.day).year).toList ++
      '-' :: ((padded 2 (Date.ofDay instant.day).month).toList ++
      '-' :: ((padded 2 (Date.ofDay instant.day).day).toList ++
      'T' :: ((padded 2 (clockOf instant).hour).toList ++
      ':' :: ((padded 2 (clockOf instant).minute).toList ++
      ':' :: ((padded 2 (clockOf instant).second).toList ++
      ((fractionText (clockOf instant).nano).toList ++ ['Z'])))))) := by
  simp [Instant.text, clockOf]

theorem clockOf_isValid {instant : Instant} (civil : instant.Civil) :
    (clockOf instant).isValid = true ∧ (clockOf instant).nano < Instant.nanosPerSecond ∧
      (clockOf instant).leap = (if instant.isLeap then 1 else 0) := by
  obtain ⟨-, small, atLeap⟩ := civil
  have early : instant.secondOfDay.toNat < 86400 := by
    simp only [Instant.secondOfDay, Instant.secondsPerDay]
    omega
  have minute : instant.secondOfDay.toNat % 60 = (instant.second % 60).toNat := by
    simp only [Instant.secondOfDay, Instant.secondsPerDay]
    omega
  simp only [Clock.isValid, Clock.leap, Bool.and_eq_true, decide_eq_true_eq]
  cases leap : instant.isLeap with
  | false =>
      have below : instant.nano < Instant.nanosPerSecond := by simpa [Instant.isLeap] using leap
      simp only [clockOf, leap, Bool.false_eq_true, if_false]
      refine ⟨⟨⟨?_, ?_⟩, ?_⟩, ?_, ?_⟩
      · omega
      · omega
      · omega
      · omega
      · split <;> omega
  | true =>
      have last := atLeap leap
      simp only [clockOf, leap, if_true]
      refine ⟨⟨⟨?_, ?_⟩, ?_⟩, ?_, ?_⟩
      · omega
      · omega
      · omega
      · omega
      · split <;> omega

theorem instantAt_clockOf {instant : Instant} (civil : instant.Civil) :
    instantAt (Date.ofDay instant.day) (clockOf instant) 0 = instant := by
  obtain ⟨-, -, leap⟩ := clockOf_isValid civil
  have second : instant.day * 86400 + (instant.secondOfDay.toNat : Int) = instant.second := by
    simp only [Instant.day, Instant.secondOfDay, Instant.secondsPerDay]
    omega
  have inDay : (clockOf instant).inDay = instant.secondOfDay.toNat := by
    simp only [Clock.inDay, leap]
    simp only [clockOf]
    omega
  have nano : (clockOf instant).nano + (clockOf instant).leap * Instant.nanosPerSecond =
      instant.nano := by
    rw [leap]
    cases isLeap : instant.isLeap with
    | false => simp [clockOf, isLeap]
    | true =>
        have above : Instant.nanosPerSecond ≤ instant.nano := by simpa [Instant.isLeap] using isLeap
        simp [clockOf, isLeap]
        omega
  simp only [instantAt, Date.toDay_ofDay, inDay, nano, Int.sub_zero]
  rw [show ((Instant.secondsPerDay : Nat) : Int) = 86400 from rfl, second]

/-- Any instant of the calendar is the one that its text is read as. -/
theorem instant?_text {instant : Instant} (civil : instant.Civil) :
    instant? instant.text.toList = some instant := by
  have date := Date.isValid_ofDay instant.day
  obtain ⟨clock, small, -⟩ := clockOf_isValid civil
  rw [toList_text, instant?_eq]
  refine Option.bind_eq_some_iff.2 ⟨_, date?_text date _, ?_⟩
  refine Option.bind_eq_some_iff.2 ⟨_, rfl, ?_⟩
  refine Option.bind_eq_some_iff.2 ⟨_, clock?_text clock small, ?_⟩
  refine Option.bind_eq_some_iff.2 ⟨(0, []), rfl, ?_⟩
  exact assemble?_eq_some_iff.2
    ⟨⟨rfl, civil.year, date⟩, clock, civil.year, instantAt_clockOf civil⟩

/-! What texts are read as. -/

theorem digitsUpTo_lt {result : Nat} (read : digitsUpTo count value text = (result, rest)) :
    rest.length ≤ text.length ∧ text.length - rest.length ≤ count ∧
      result < (value + 1) * 10 ^ (text.length - rest.length) := by
  induction count generalizing value text with
  | zero =>
      obtain ⟨rfl, rfl⟩ := Prod.mk.inj read
      simp
  | succ count ih =>
      cases text with
      | nil =>
          obtain ⟨rfl, rfl⟩ := Prod.mk.inj read
          simp
      | cons c text =>
          rw [digitsUpTo] at read
          split at read
          next =>
            obtain ⟨rfl, rfl⟩ := Prod.mk.inj read
            simp
          next digit found =>
            obtain ⟨inside, rfl⟩ := Text.digit?_eq_some_iff.1 found
            obtain ⟨shorter, used, below⟩ := ih read
            have nine : Text.digitValue c ≤ 9 := Text.digitValue_le inside
            have longer : (c :: text).length - rest.length = text.length - rest.length + 1 := by
              rw [List.length_cons]
              omega
            rw [longer, List.length_cons]
            refine ⟨by omega, by omega, ?_⟩
            calc result
              _ < (value * 10 + Text.digitValue c + 1) * 10 ^ (text.length - rest.length) := below
              _ ≤ ((value + 1) * 10) * 10 ^ (text.length - rest.length) :=
                  Nat.mul_le_mul_right _ (by omega)
              _ = (value + 1) * 10 ^ (text.length - rest.length + 1) := by
                  rw [Nat.pow_succ, Nat.mul_assoc, Nat.mul_comm 10]

theorem digits?_lt (read : digits? count text = some (value, rest)) :
    text.length - rest.length ≤ count ∧ value < 10 ^ (text.length - rest.length) := by
  cases text with
  | nil => exact absurd read (by simp [digits?])
  | cons c text =>
      simp only [digits?] at read
      split at read
      · obtain ⟨-, used, below⟩ := digitsUpTo_lt (Option.some.inj read)
        exact ⟨used, by simpa using below⟩
      · contradiction

theorem fraction?_lt {nano : Nat} (read : fraction? text = some (nano, rest)) :
    nano < Instant.nanosPerSecond := by
  unfold fraction? at read
  split at read
  next text =>
    simp only [Option.map_eq_some_iff, Prod.mk.injEq] at read
    obtain ⟨⟨value, behind⟩, read, rfl, -⟩ := read
    obtain ⟨used, below⟩ := digits?_lt read
    calc value * Nat.pow 10 (9 - (text.length - behind.length))
      _ < 10 ^ (text.length - behind.length) * 10 ^ (9 - (text.length - behind.length)) :=
          Nat.mul_lt_mul_of_pos_right below (Nat.pow_pos (by decide))
      _ = 10 ^ 9 := by rw [← Nat.pow_add, Nat.add_sub_cancel' used]
  next =>
    obtain ⟨rfl, -⟩ := Prod.mk.inj (Option.some.inj read)
    decide

theorem clock?_lt {clock : Clock} (read : clock? text = some (clock, rest)) :
    clock.nano < Instant.nanosPerSecond := by
  simp only [clock?, Option.bind_eq_bind, Option.bind_eq_some_iff, Option.pure_def,
    Option.some.injEq, Prod.mk.injEq] at read
  obtain ⟨_, _, _, _, _, _, _, _, _, _, ⟨nano, _⟩, fraction, rfl, -⟩ := read
  exact fraction?_lt fraction

theorem hoursAndMinutes?_dvd {offset : Int} (read : hoursAndMinutes? text = some (offset, rest)) :
    60 ∣ offset := by
  simp only [hoursAndMinutes?, Option.bind_eq_bind, Option.bind_eq_some_iff, Option.pure_def,
    Option.some.injEq, Prod.mk.injEq] at read
  obtain ⟨hours, _, minutes, _, rfl, -⟩ := read
  omega

/-- Offsets are whole minutes, so no offset moves a leap second within its minute. -/
theorem offset?_dvd {offset : Int} (read : offset? text = some (offset, rest)) : 60 ∣ offset := by
  have behindMinus : ∀ text, (hoursAndMinutes? text).map (fun (seconds, rest) => (-seconds, rest)) =
      some (offset, rest) → 60 ∣ offset := by
    intro behind negated
    simp only [Option.map_eq_some_iff, Prod.mk.injEq] at negated
    obtain ⟨⟨seconds, _⟩, forward, rfl, -⟩ := negated
    exact Int.dvd_neg.2 (hoursAndMinutes?_dvd forward)
  unfold offset? at read
  split at read
  · obtain ⟨rfl, -⟩ := Prod.mk.inj (Option.some.inj read)
    exact Int.dvd_zero 60
  · obtain ⟨rfl, -⟩ := Prod.mk.inj (Option.some.inj read)
    exact Int.dvd_zero 60
  · exact hoursAndMinutes?_dvd read
  · exact behindMinus _ read
  · exact behindMinus _ read
  · split at read
    · obtain ⟨rfl, -⟩ := Prod.mk.inj (Option.some.inj read)
      exact Int.dvd_zero 60
    · contradiction
  · contradiction

/-- Any text that is read is read as an instant of the calendar. -/
theorem civil_of_instant? {instant : Instant} (found : instant? text = some instant) :
    instant.Civil := by
  rw [instant?_eq] at found
  simp only [Option.bind_eq_some_iff] at found
  obtain ⟨⟨date, _⟩, -, _, -, ⟨clock, _⟩, timed, ⟨offset, _⟩, shifted, built⟩ := found
  have small := clock?_lt timed
  have minutes := offset?_dvd shifted
  obtain ⟨-, timely, year, rfl⟩ := assemble?_eq_some_iff.1 built
  simp only [Clock.isValid, Bool.and_eq_true, decide_eq_true_eq] at timely
  refine ⟨year, ?_, ?_⟩
  · simp only [instantAt, Clock.leap]
    split <;> omega
  · intro leap
    have last : clock.second = 60 := by
      by_contra regular
      simp [Instant.isLeap, instantAt, Clock.leap, regular] at leap
      omega
    simp only [instantAt, Clock.inDay, Clock.leap, last, Instant.secondsPerDay, if_true]
    omega

end Time

end RobotPuzzle
