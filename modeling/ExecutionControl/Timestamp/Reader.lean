import ExecutionControl.Text.Blank
import ExecutionControl.Text.Numeral
import ExecutionControl.Timestamp.Basic
import ExecutionControl.Timestamp.Calendar

/-! # Reading timestamps

    Two readers of RFC 3339 texts. The strict one wants every field at its full
    width. The lenient one also takes short fields, signed years of any length,
    blanks between the parts, a zone named `UTC` and an offset without its colon.
    Both want seconds and a zone.

    Each step takes the characters that are left and gives back its value and the
    rest, or nothing if the text does not have the form.
-/

namespace ExecutionControl.Timestamp

open Text

/-! ### Steps -/

/-- The value of the digits at the front, at most `most` of them and at least one,
    and the rest. -/
def takeNumber (most : Nat) (cs : List Char) : Option (Nat × List Char) :=
  let digits := (cs.take most).takeWhile fun c => (digitValue? c).isSome
  if digits.isEmpty then none
  else some (digits.foldl (fun n c => n * 10 + (c.toNat - '0'.toNat)) 0, cs.drop digits.length)

/-- The value of exactly `width` digits at the front, and the rest. -/
def takeExactly (width : Nat) (cs : List Char) : Option (Nat × List Char) :=
  let digits := cs.take width
  if digits.length = width ∧ digits.all (fun c => (digitValue? c).isSome) then
    some (digits.foldl (fun n c => n * 10 + (c.toNat - '0'.toNat)) 0, cs.drop width)
  else none

/-- The rest after the character `c`. -/
def takeChar (c : Char) : List Char → Option (List Char)
  | [] => none
  | d :: rest => if d = c then some rest else none

/-- A year of up to four digits, or a sign and any number of digits that stay below
    2^63. -/
def takeYear (cs : List Char) : Option (Int × List Char) :=
  let signed (rest : List Char) : Option (Nat × List Char) :=
    (takeNumber rest.length rest).filter fun p => p.1 ≤ maxInt64
  match trimLeft cs with
  | '-' :: rest => (signed rest).map fun p => (-(p.1 : Int), p.2)
  | '+' :: rest => (signed rest).map fun p => ((p.1 : Int), p.2)
  | rest => (takeNumber 4 rest).map fun p => ((p.1 : Int), p.2)

/-- The rest after the mark between date and time: a `T` of either case or a space. -/
def takeSeparator : List Char → Option (List Char)
  | [] => none
  | c :: rest => if c = 't' ∨ c = 'T' ∨ c = ' ' then some rest else none

/-- The nanoseconds of an optional fraction; digits after the ninth are dropped. -/
def takeFraction : List Char → Option (Nat × List Char)
  | '.' :: rest =>
    (takeNumber 9 rest).map fun p =>
      (p.1 * Nat.pow 10 (9 - (rest.length - p.2.length)),
        p.2.dropWhile fun c => (digitValue? c).isSome)
  | cs => some (0, cs)

/-- Two digits of an offset, the first at most `top`. -/
def takeOffsetField (top : Nat) (cs : List Char) : Option (Nat × List Char) :=
  (takeExactly 2 cs).filter fun p => p.1 / 10 ≤ top

/-- An offset from UTC in seconds: `Z` of either case, or a sign, hours, what
    `takeColon` accepts, and minutes. The sign may be the minus sign U+2212. -/
def takeOffset (takeColon : List Char → Option (List Char)) :
    List Char → Option (Int × List Char)
  | [] => none
  | c :: rest =>
    if c = 'Z' ∨ c = 'z' then some (0, rest)
    else do
      let sign : Int ← if c = '+' then some 1 else if c = '-' ∨ c = '−' then some (-1) else none
      let (hours, rest) ← takeOffsetField 9 rest
      let rest ← takeColon rest
      let (minutes, rest) ← takeOffsetField 5 rest
      some (sign * ((hours * 3600 + minutes * 60 : Nat) : Int), rest)

/-! ### Assembly -/

/-- The fields of a written timestamp. -/
structure Fields where
  /-- The date as written, not yet known to be one of the calendar. -/
  date : Date
  /-- The hour of the day. -/
  hour : Nat
  /-- The minute of the hour. -/
  minute : Nat
  /-- The second of the minute; 60 is a leap second. -/
  second : Nat
  /-- The nanoseconds past the second. -/
  nanos : Nat
  /-- How far local time is ahead of UTC, in seconds. -/
  offset : Int

/-- The years that timestamps reach, as day numbers of their first and last day. -/
def dayRange : Int × Int :=
  (Date.dayNumber ⟨-262143, 1, 1⟩, Date.dayNumber ⟨262142, 12, 31⟩)

/-- The point in time that the fields name, if each is in its range, the date is one
    of the calendar, the offset is shorter than a day, and the date in UTC is within
    the years that timestamps reach. -/
def ofFields? (f : Fields) : Option Timestamp :=
  let day := f.date.dayNumber
  let secs := day * 86400 + (f.hour * 3600 + f.minute * 60 + min f.second 59 : Nat) - f.offset
  -- A leap second stays within its minute, as a nanosecond part of a second and more.
  let nanos := f.nanos + (if f.second = 60 then 1000000000 else 0)
  if h : nanos < 2000000000 then
    if 1 ≤ f.date.month ∧ f.date.month ≤ 12 ∧ 1 ≤ f.date.day ∧ f.date.day ≤ 31 ∧
        f.date.IsValid ∧ f.hour ≤ 23 ∧ f.minute ≤ 59 ∧ f.second ≤ 60 ∧
        -86400 < f.offset ∧ f.offset < 86400 ∧
        dayRange.1 ≤ day ∧ day ≤ dayRange.2 ∧
        dayRange.1 ≤ secs / 86400 ∧ secs / 86400 ≤ dayRange.2 then
      some ⟨secs, nanos, h⟩
    else none
  else none

/-- Read an RFC 3339 text with every field at full width. -/
def readStrict (s : String) : Option Timestamp := do
  let (year, cs) ← takeExactly 4 s.toList
  let cs ← takeChar '-' cs
  let (month, cs) ← takeExactly 2 cs
  let cs ← takeChar '-' cs
  let (day, cs) ← takeExactly 2 cs
  let cs ← takeSeparator cs
  let (hour, cs) ← takeExactly 2 cs
  let cs ← takeChar ':' cs
  let (minute, cs) ← takeExactly 2 cs
  let cs ← takeChar ':' cs
  let (second, cs) ← takeExactly 2 cs
  let (nanos, cs) ← takeFraction cs
  let (offset, cs) ← takeOffset (takeChar ':') cs
  if cs.isEmpty then ofFields? ⟨⟨year, month, day⟩, hour, minute, second, nanos, offset⟩
  else none

/-- The zone of a lenient text: `UTC` in any case, or an offset whose colon may be
    missing, repeated or blank. -/
def takeZone (cs : List Char) : Option (Int × List Char) :=
  if (String.ofList (cs.take 3)).toUpper = "UTC" then some (0, cs.drop 3)
  else takeOffset (fun rest => some (rest.dropWhile fun c => c = ':' || isBlank c)) cs

/-- Read a text in the lenient form of RFC 3339. -/
def readLenient (s : String) : Option Timestamp := do
  let (year, cs) ← takeYear s.toList
  let cs ← takeChar '-' (trimLeft cs)
  let (month, cs) ← takeNumber 2 (trimLeft cs)
  let cs ← takeChar '-' (trimLeft cs)
  let (day, cs) ← takeNumber 2 (trimLeft cs)
  let cs ← takeSeparator cs
  let (hour, cs) ← takeNumber 2 (trimLeft cs)
  let cs ← takeChar ':' (trimLeft cs)
  let (minute, cs) ← takeNumber 2 (trimLeft cs)
  let cs ← takeChar ':' (trimLeft cs)
  let (second, cs) ← takeNumber 2 (trimLeft cs)
  let (nanos, cs) ← takeFraction cs
  let (offset, cs) ← takeZone (trimLeft cs)
  if (trimLeft cs).isEmpty then
    ofFields? ⟨⟨year, month, day⟩, hour, minute, second, nanos, offset⟩
  else none

end ExecutionControl.Timestamp
