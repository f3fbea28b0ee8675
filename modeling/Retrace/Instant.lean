import Retrace.Decimal.Layout

/-!
# Instants

An instant is a number of seconds since the beginning of 1970 in universal time, with the
nanoseconds of its second.  It is written with date, time of day and the offset of universal time,
the fraction with as few digits as are exact of none, three, six and nine.

Main results:

- Theorem `daysOf_epoch`: day zero is the first of January 1970.
-/

namespace Retrace

/-- A moment; a leap second has more than `10 ^ 9` nanoseconds. -/
structure Instant where
  seconds : Int
  nanoseconds : Nat
deriving DecidableEq, Repr

namespace Instant

/-- A day of the calendar. -/
structure Date where
  year : Int
  month : Nat
  day : Nat
deriving DecidableEq, Repr

/-- Whether a year has 366 days. -/
def isLeap (year : Int) : Bool :=
  (year % 4 == 0 && year % 100 != 0) || year % 400 == 0

/-- The number of days of a month. -/
def daysOfMonth (year : Int) (month : Nat) : Nat :=
  if month = 2 then (if isLeap year then 29 else 28)
  else if month = 4 ∨ month = 6 ∨ month = 9 ∨ month = 11 then 30
  else 31

/-- Whether a date is in the calendar. -/
def Date.isValid (d : Date) : Bool :=
  1 ≤ d.month && d.month ≤ 12 && 1 ≤ d.day && d.day ≤ daysOfMonth d.year d.month

/-- The number of the day of a date, counted from 1970; years are taken to start in March. -/
def Date.days (d : Date) : Int :=
  let year := if d.month ≤ 2 then d.year - 1 else d.year
  let era := year / 400
  let yearOfEra := year - era * 400
  let month : Int := if d.month ≤ 2 then d.month + 9 else d.month - 3
  let dayOfYear := (153 * month + 2) / 5 + d.day - 1
  let dayOfEra := yearOfEra * 365 + yearOfEra / 4 - yearOfEra / 100 + dayOfYear
  era * 146097 + dayOfEra - 719468

/-- The date of a day that is counted from 1970. -/
def Date.ofDays (days : Int) : Date :=
  let shifted := days + 719468
  let era := shifted / 146097
  let dayOfEra := shifted - era * 146097
  let yearOfEra := (dayOfEra - dayOfEra / 1460 + dayOfEra / 36524 - dayOfEra / 146096) / 365
  let dayOfYear := dayOfEra - (365 * yearOfEra + yearOfEra / 4 - yearOfEra / 100)
  let month := (5 * dayOfYear + 2) / 153
  let day := dayOfYear - (153 * month + 2) / 5 + 1
  let month := if month < 10 then month + 3 else month - 9
  let year := yearOfEra + era * 400
  ⟨if month ≤ 2 then year + 1 else year, month.toNat, day.toNat⟩

/-- Day zero is the first of January 1970. -/
theorem daysOf_epoch : Date.days ⟨1970, 1, 1⟩ = 0 := by decide

/-- The least and the greatest year of a date. -/
def yearRange : Int × Int :=
  (-262143, 262142)

/-- Whether a year is in range. -/
def yearInRange (year : Int) : Bool :=
  yearRange.1 ≤ year && year ≤ yearRange.2

/-- The instant so many seconds after the beginning of 1970; only the last second of a minute may be
followed by a leap second. -/
def ofSeconds? (seconds : Int) (nanoseconds : Nat) : Option Instant :=
  if !yearInRange (Date.ofDays (seconds / 86400)).year then none
  else if nanoseconds < 1000000000 ∨ nanoseconds < 2000000000 ∧ seconds % 60 = 59 then
    some ⟨seconds, nanoseconds⟩
  else none

/-- Digits with zeros before them up to a width. -/
def padded (width n : Nat) : List Char :=
  let digits := Decimal.natDigits n
  List.replicate (width - digits.length) '0' ++ digits

/-- A year; one of more than four digits or before year zero carries its sign. -/
def yearChars (year : Int) : List Char :=
  if year < 0 then '-' :: padded 4 year.natAbs
  else if 9999 < year then '+' :: padded 4 year.natAbs
  else padded 4 year.natAbs

/-- The fraction of a second with its point. -/
def fractionChars (nanoseconds : Nat) : List Char :=
  if nanoseconds = 0 then []
  else if nanoseconds % 1000000 = 0 then '.' :: padded 3 (nanoseconds / 1000000)
  else if nanoseconds % 1000 = 0 then '.' :: padded 6 (nanoseconds / 1000)
  else '.' :: padded 9 nanoseconds

/-- Date and time of day without an offset. -/
def localChars (i : Instant) : List Char :=
  let date := Date.ofDays (i.seconds / 86400)
  let ofDay := (i.seconds % 86400).toNat
  let leap := i.nanoseconds / 1000000000
  yearChars date.year ++ ['-'] ++ padded 2 date.month ++ ['-'] ++ padded 2 date.day ++ ['T'] ++
    padded 2 (ofDay / 3600) ++ [':'] ++ padded 2 (ofDay / 60 % 60) ++ [':'] ++
    padded 2 (ofDay % 60 + leap) ++ fractionChars (i.nanoseconds % 1000000000)

/-- The text of an instant with the offset of universal time. -/
def render (i : Instant) : String :=
  String.ofList (i.localChars ++ "+00:00".toList)

/-- The text of an instant with the letter of universal time. -/
def renderShort (i : Instant) : String :=
  String.ofList (i.localChars ++ ['Z'])

end Instant
end Retrace
