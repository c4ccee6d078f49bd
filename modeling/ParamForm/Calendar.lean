/-!
# Calendar

Points of time as milliseconds from the start of 1970, in the proleptic Gregorian calendar without
time zones: their making from a year, month, day and time of day, any of which may overflow, and
their two written forms.
-/

namespace ParamForm.Calendar

/-- Milliseconds in a day. -/
def dayLength : Int := 86400000

/-- The day, counted from the start of 1970, on which a month begins; months count from zero and
may lie outside the year. -/
def monthStart (year month : Int) : Int :=
  let y := year + Int.fdiv month 12
  let m := Int.fmod month 12
  -- years begin in March, so that the leap day ends one
  let (y, m) := if m < 2 then (y - 1, m + 10) else (y, m - 2)
  let era := Int.fdiv y 400
  let yearOfEra := y - era * 400
  era * 146097 + yearOfEra * 365 + yearOfEra / 4 - yearOfEra / 100 + (153 * m + 2) / 5 - 719468

/-- The point of time of a date and a time of day. -/
def ofParts (year month day hour minute second ms : Int) : Int :=
  (monthStart year month + (day - 1)) * dayLength
    + hour * 3600000 + minute * 60000 + second * 1000 + ms

/-- A date, the month counted from zero. -/
structure Date where
  year : Int
  month : Nat
  day : Nat

/-- The date of a day counted from the start of 1970. -/
def dateOf (day : Int) : Date :=
  let z := day + 719468
  let era := Int.fdiv z 146097
  let dayOfEra := (z - era * 146097).toNat
  let yearOfEra := (dayOfEra - dayOfEra / 1460 + dayOfEra / 36524 - dayOfEra / 146096) / 365
  let dayOfYear := dayOfEra - (365 * yearOfEra + yearOfEra / 4 - yearOfEra / 100)
  let m := (5 * dayOfYear + 2) / 153
  let d := dayOfYear - (153 * m + 2) / 5 + 1
  let year := (yearOfEra : Int) + era * 400
  if m < 10 then ⟨year, m + 2, d⟩ else ⟨year + 1, m - 10, d⟩

/-- A number with zeros before it, up to a width. -/
def padded (width n : Nat) : List Char :=
  let digits := Nat.toDigits 10 n
  List.replicate (width - digits.length) '0' ++ digits

/-- The time of day of a point of time: hours, minutes, seconds and milliseconds. -/
def timeOf (ms : Int) : Nat × Nat × Nat × Nat :=
  let t := (Int.fmod ms dayLength).toNat
  (t / 3600000, t / 60000 % 60, t / 1000 % 60, t % 1000)

/-- A year of a timestamp: four digits, or a sign and six digits. -/
def yearText (year : Int) : List Char :=
  if 0 ≤ year ∧ year ≤ 9999 then padded 4 year.toNat
  else (if year < 0 then '-' else '+') :: padded 6 year.natAbs

/-- The timestamp `2001-12-14T21:59:43.100Z`. -/
def timestamp (ms : Int) : List Char :=
  let date := dateOf (Int.fdiv ms dayLength)
  let (h, m, s, f) := timeOf ms
  yearText date.year ++ '-' :: padded 2 (date.month + 1) ++ '-' :: padded 2 date.day
    ++ 'T' :: padded 2 h ++ ':' :: padded 2 m ++ ':' :: padded 2 s ++ '.' :: padded 3 f ++ ['Z']

/-- The short names of the weekdays, Sunday first. -/
def weekdays : List String :=
  ["Sun", "Mon", "Tue", "Wed", "Thu", "Fri", "Sat"]

/-- The short names of the months. -/
def months : List String :=
  ["Jan", "Feb", "Mar", "Apr", "May", "Jun", "Jul", "Aug", "Sep", "Oct", "Nov", "Dec"]

/-- The long form `Fri Dec 14 2001 21:59:43 GMT+0000 (Coordinated Universal Time)`. -/
def longForm (ms : Int) : List Char :=
  let day := Int.fdiv ms dayLength
  let date := dateOf day
  let (h, m, s, _) := timeOf ms
  let weekday := (weekdays[(Int.fmod (day + 4) 7).toNat]?).getD ""
  let month := (months[date.month]?).getD ""
  let year := (if date.year < 0 then ['-'] else []) ++ padded 4 date.year.natAbs
  weekday.toList ++ ' ' :: month.toList ++ ' ' :: padded 2 date.day ++ ' ' :: year
    ++ ' ' :: padded 2 h ++ ':' :: padded 2 m ++ ':' :: padded 2 s
    ++ " GMT+0000 (Coordinated Universal Time)".toList

end ParamForm.Calendar
