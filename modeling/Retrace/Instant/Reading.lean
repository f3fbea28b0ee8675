import Retrace.Decimal.Reading
import Retrace.Instant
import Retrace.Text.Blank

/-!
# Reading instants

An instant is read from a date, one of the letters `t` and `T` or a space, a time of day and an
offset.  Blanks may stand before every part.  A year without a sign has at most four digits, the
other parts have at most two, and a fraction is cut after nine digits.  A second of 60 is a leap
second.  The offset is `Z`, `z`, `UTC` in any case, or a sign with hours and minutes of two digits
each, with colons or blanks between them or not, less than a day in all.

Main results:

- Theorem `cutDigits_append`: cutting digits off a text loses nothing.
-/

namespace Retrace
namespace Instant

/-- Cut off at most `most` digits. -/
def cutDigits : Nat → List Char → List Char × List Char
  | 0, s => ([], s)
  | _ + 1, [] => ([], [])
  | most + 1, c :: rest =>
      if c.isDigit then
        let (digits, rest) := cutDigits most rest
        (c :: digits, rest)
      else ([], c :: rest)

/-- Cutting digits off a text loses nothing. -/
theorem cutDigits_append (most : Nat) (s : List Char) :
    (cutDigits most s).1 ++ (cutDigits most s).2 = s := by
  induction most generalizing s with
  | zero => rfl
  | succ most ih =>
      cases s with
      | nil => rfl
      | cons c rest =>
          simp only [cutDigits]
          split
          · simp [ih rest]
          · rfl

/-- Read a number of one to `most` digits, blanks before it skipped. -/
def readPart (most : Nat) (s : List Char) : Option (Nat × List Char) :=
  match cutDigits most (Text.trimStart s) with
  | ([], _) => none
  | (digits, rest) => some (Decimal.ofDigits digits, rest)

/-- Read a year; one with a sign may have any number of digits. -/
def readYear (s : List Char) : Option (Int × List Char) :=
  match Text.trimStart s with
  | '-' :: rest =>
      match cutDigits rest.length rest with
      | ([], _) => none
      | (digits, rest) => some (-(Decimal.ofDigits digits : Int), rest)
  | '+' :: rest =>
      match cutDigits rest.length rest with
      | ([], _) => none
      | (digits, rest) => some (Decimal.ofDigits digits, rest)
  | s =>
      match cutDigits 4 s with
      | ([], _) => none
      | (digits, rest) => some (Decimal.ofDigits digits, rest)

/-- Skip blanks and then one given character. -/
def skip (c : Char) (s : List Char) : Option (List Char) :=
  match Text.trimStart s with
  | d :: rest => if d = c then some rest else none
  | [] => none

/-- Read a date. -/
def readDate (s : List Char) : Option (Date × List Char) := do
  let (year, s) ← readYear s
  let (month, s) ← readPart 2 (← skip '-' s)
  let (day, s) ← readPart 2 (← skip '-' s)
  return (⟨year, month, day⟩, s)

/-- Read the fraction of a second in nanoseconds; digits after the ninth are passed over. -/
def readFraction (s : List Char) : Option (Nat × List Char) :=
  match s with
  | '.' :: rest =>
      match cutDigits 9 rest with
      | ([], _) => none
      | (digits, rest) =>
          let nanoseconds := Decimal.ofDigits digits * Nat.pow 10 (9 - digits.length)
          some (nanoseconds, rest.dropWhile Char.isDigit)
  | s => some (0, s)

/-- Read a time of day: seconds of the day and nanoseconds, a leap second having `10 ^ 9` more. -/
def readTime (s : List Char) : Option ((Nat × Nat) × List Char) := do
  let (hour, s) ← readPart 2 s
  let (minute, s) ← readPart 2 (← skip ':' s)
  let (second, s) ← readPart 2 (← skip ':' s)
  let (fraction, s) ← readFraction s
  if 23 < hour || 59 < minute || 60 < second then none
  else
    let (second, extra) := if second = 60 then (59, 1000000000) else (second, 0)
    some ((hour * 3600 + minute * 60 + second, extra + fraction), s)

/-- Read two digits. -/
def readTwo : List Char → Option (Nat × List Char)
  | a :: b :: rest =>
      if a.isDigit && b.isDigit then some (Decimal.ofDigits [a, b], rest) else none
  | _ => none

/-- Read hours and minutes of an offset in seconds. -/
def readHoursMinutes (s : List Char) : Option (Nat × List Char) := do
  let (hours, s) ← readTwo s
  let (minutes, s) ← readTwo (s.dropWhile fun c => c == ':' || Text.isBlank c)
  if 59 < minutes then none else some (hours * 3600 + minutes * 60, s)

/-- Read an offset in seconds. -/
def readOffset (s : List Char) : Option (Int × List Char) :=
  match s with
  | [] => none
  | c :: rest =>
      if (s.take 3).map Char.toLower = ['u', 't', 'c'] then some (0, s.drop 3)
      else if c = 'Z' ∨ c = 'z' then some (0, rest)
      else if c = '+' then (readHoursMinutes rest).map fun found => ((found.1 : Int), found.2)
      else if c = '-' ∨ c = Char.ofNat 0x2212 then
        (readHoursMinutes rest).map fun found => (-(found.1 : Int), found.2)
      else none

/-- Read an instant. -/
def read (s : List Char) : Option Instant := do
  let (date, s) ← readDate s
  let s ← match s with
    | c :: rest => if c = 't' ∨ c = 'T' ∨ c = ' ' then some rest else none
    | [] => none
  let ((ofDay, nanoseconds), s) ← readTime s
  let (offset, s) ← readOffset (Text.trimStart s)
  if !s.all Text.isBlank then none
  else if !date.isValid || !yearInRange date.year then none
  else if 86400 ≤ offset.natAbs then none
  else ofSeconds? (date.days * 86400 + ofDay - offset) nanoseconds

end Instant
end Retrace
