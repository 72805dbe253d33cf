import TableSync.Text.Numeral

/-!
# Dates and times

A moment, as seconds from the first day of 1970, as a date of the Gregorian calendar and a time of
day.

* `timeText` is the time of day, in hours, minutes and seconds of two digits each.
* `civilDate` is the date.  It counts years from March on, so that a leap day is the last day of its
  year, and years in eras of 400, which all have the same number of days.
* `dateText` puts both together.

There are no leap seconds and no time zones: a day has 86400 seconds, and the date is that of
Greenwich.
-/

set_option autoImplicit false

namespace TableSync

/-- A number with at least two digits. -/
def twoDigits (n : Nat) : Text := if n < 10 then '0' :: showNat n else showNat n

/-- The time of day of a moment. -/
def timeText (seconds : Nat) : String :=
  let inDay := seconds % 86400
  String.ofList <| twoDigits (inDay / 3600) ++ [':'] ++ twoDigits (inDay / 60 % 60) ++ [':']
    ++ twoDigits (inDay % 60)

/-- Year, month and day of a number of days from the first day of 1970.  Years are counted from
March on, so that a leap day ends its year. -/
def civilDate (days : Nat) : Nat × Nat × Nat :=
  let fromMarch := days + 719468
  let era := fromMarch / 146097
  let dayOfEra := fromMarch % 146097
  let yearOfEra := (dayOfEra - dayOfEra / 1460 + dayOfEra / 36524 - dayOfEra / 146096) / 365
  let dayOfYear := dayOfEra - (365 * yearOfEra + yearOfEra / 4 - yearOfEra / 100)
  let month := (5 * dayOfYear + 2) / 153
  let day := dayOfYear - (153 * month + 2) / 5 + 1
  let year := yearOfEra + 400 * era
  if month < 10 then (year, month + 3, day) else (year + 1, month - 9, day)

/-- The date and the time of day of a moment. -/
def dateText (seconds : Nat) : String :=
  let (year, month, day) := civilDate (seconds / 86400)
  String.ofList (showNat year ++ ['-'] ++ twoDigits month ++ ['-'] ++ twoDigits day)
    ++ " " ++ timeText seconds

/-- The day after the leap day of a century year that is a leap year. -/
example : civilDate 11017 = (2000, 3, 1) := by decide

end TableSync
