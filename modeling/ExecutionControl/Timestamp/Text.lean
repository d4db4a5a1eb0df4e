import ExecutionControl.Text.Column
import ExecutionControl.Timestamp.Basic
import ExecutionControl.Timestamp.Calendar

/-! # Written timestamps

    The forms in which timestamps are written: RFC 3339 with either spelling of the
    UTC zone, and the form of table cells. Years outside 0 to 9999 carry a sign.
-/

namespace ExecutionControl.Timestamp

open Text

/-- A year: four digits, or a sign and at least four digits outside 0 to 9999. -/
def yearText (year : Int) : String :=
  if 0 ≤ year ∧ year ≤ 9999 then zeroPadded 4 year.toNat
  else (if year < 0 then "-" else "+") ++ zeroPadded 4 year.natAbs

/-- The date of a point in time. -/
def date (t : Timestamp) : Date := Date.ofDayNumber (t.secs / 86400)

/-- Year, month and day of the month, with dashes between. -/
def dateText (t : Timestamp) : String :=
  let d := t.date
  yearText d.year ++ "-" ++ zeroPadded 2 d.month.toNat ++ "-" ++ zeroPadded 2 d.day.toNat

/-- Hour, minute and second, with colons between; a leap second is second 60. -/
def clockText (t : Timestamp) : String :=
  let s := (t.secs % 86400).toNat
  let leap := if t.nanos ≥ 1000000000 then 1 else 0
  zeroPadded 2 (s / 3600) ++ ":" ++ zeroPadded 2 (s / 60 % 60) ++ ":" ++
    zeroPadded 2 (s % 60 + leap)

/-- The fraction of the second in the fewest of 0, 3, 6 or 9 digits that are exact. -/
def fractionText (t : Timestamp) : String :=
  let n := t.nanos % 1000000000
  if n = 0 then ""
  else if n % 1000000 = 0 then "." ++ zeroPadded 3 (n / 1000000)
  else if n % 1000 = 0 then "." ++ zeroPadded 6 (n / 1000)
  else "." ++ zeroPadded 9 n

/-- The RFC 3339 form with the given spelling of the zone. -/
def rfc3339 (zone : String) (t : Timestamp) : String :=
  t.dateText ++ "T" ++ t.clockText ++ t.fractionText ++ zone

/-- The form in JSON texts, with the zone written `Z`. -/
def text (t : Timestamp) : String := t.rfc3339 "Z"

/-- The form in status records, with the zone written as an offset. -/
def offsetText (t : Timestamp) : String := t.rfc3339 "+00:00"

/-- The form of table cells, to the second. -/
def cellText (t : Timestamp) : String := t.dateText ++ " " ++ t.clockText ++ " UTC"

end ExecutionControl.Timestamp
