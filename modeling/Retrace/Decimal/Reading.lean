import Retrace.Decimal.Exact

/-!
# Reading numbers

A double is read from an optional sign and either a word for infinity or for a value that is not a
number, in any case, or digits with at most one point among them, at least one digit, and an
optional power of ten.  The value is the double nearest to the decimal.  A whole number is read from
an optional sign and digits, within the bounds of its type; of two faults the first one from the
left is reported.

Main results:

- Theorem `readBelow_le`: a natural number that is read respects its bound.
-/

namespace Retrace
namespace Decimal

/-- Why a text is not a number. -/
inductive NumberFault where
  | emptyFloat
  | notFloat
  | emptyInteger
  | notDigit
  | tooLarge
  | tooSmall
  | notBoolean
deriving DecidableEq, Repr

/-- The sentence about a text that is not a number. -/
def NumberFault.message : NumberFault → String
  | .emptyFloat => "cannot parse float from empty string"
  | .notFloat => "invalid float literal"
  | .emptyInteger => "cannot parse integer from empty string"
  | .notDigit => "invalid digit found in string"
  | .tooLarge => "number too large to fit in target type"
  | .tooSmall => "number too small to fit in target type"
  | .notBoolean => "provided string was not `true` or `false`"

/-- The value of a decimal digit. -/
def digitValue (c : Char) : Nat :=
  c.toNat - '0'.toNat

/-- The number that digits write. -/
def ofDigits (digits : List Char) : Nat :=
  digits.foldl (fun n c => 10 * n + digitValue c) 0

/-! ## Doubles -/

/-- A decimal as it is written: `significand * 10 ^ exponent` with a sign. -/
structure Numeral where
  negative : Bool
  significand : Nat
  exponent : Int
deriving DecidableEq, Repr

/-- The double nearest to `significand * 10 ^ exponent`; what is far out of range is not
computed. -/
def nearest (significand : Nat) (exponent : Int) : Float :=
  if significand = 0 then 0
  else
    let magnitude := (Nat.toDigits 10 significand).length + exponent
    if 310 < magnitude then 1 / 0
    else if magnitude < -330 then 0
    else if 0 ≤ exponent then Float.ofScientific significand false exponent.toNat
    else Float.ofScientific significand true (-exponent).toNat

/-- The double nearest to a decimal. -/
def Numeral.toFloat (n : Numeral) : Float :=
  let x := nearest n.significand n.exponent
  if n.negative then -x else x

/-- Cut off a sign; whether it was a minus. -/
def cutSign : List Char → Bool × List Char
  | '+' :: rest => (false, rest)
  | '-' :: rest => (true, rest)
  | s => (false, s)

/-- Read the power of ten that follows the digits; nothing follows it. -/
def readPower : List Char → Option Int
  | [] => some 0
  | c :: rest =>
      if c = 'e' ∨ c = 'E' then
        let (negative, digits) := cutSign rest
        if digits.isEmpty || !digits.all Char.isDigit then none
        else some (if negative then -(ofDigits digits : Int) else ofDigits digits)
      else none

/-- Read digits with at most one point among them and a power of ten. -/
def readNumeral (negative : Bool) (s : List Char) : Option Numeral :=
  let whole := s.takeWhile Char.isDigit
  let afterWhole := s.dropWhile Char.isDigit
  let afterPoint :=
    match afterWhole with
    | '.' :: rest => rest
    | _ => []
  let hasPoint := afterWhole.head? == some '.'
  let fraction := if hasPoint then afterPoint.takeWhile Char.isDigit else []
  let rest := if hasPoint then afterPoint.dropWhile Char.isDigit else afterWhole
  if whole.isEmpty && fraction.isEmpty then none
  else
    (readPower rest).map fun power =>
      ⟨negative, ofDigits (whole ++ fraction), power - fraction.length⟩

/-- Read a double. -/
def readFloat (s : List Char) : Except NumberFault Float :=
  if s.isEmpty then .error .emptyFloat
  else
    let (negative, rest) := cutSign s
    let word := rest.map Char.toLower
    if word = "inf".toList ∨ word = "infinity".toList then
      .ok (if negative then -(1 / 0) else 1 / 0)
    else if word = "nan".toList then .ok (0 / 0)
    else
      match readNumeral negative rest with
      | some n => .ok n.toFloat
      | none => .error .notFloat

/-! ## Whole numbers -/

/-- Read digits after `n`, refusing what exceeds the bound with the given fault. -/
def readBelow (bound : Nat) (fault : NumberFault) (n : Nat) : List Char → Except NumberFault Nat
  | [] => .ok n
  | c :: rest =>
      if !c.isDigit then .error .notDigit
      else if bound < 10 * n + digitValue c then .error fault
      else readBelow bound fault (10 * n + digitValue c) rest

/-- A natural number that is read respects its bound. -/
theorem readBelow_le {bound : Nat} {fault : NumberFault} {n m : Nat} {s : List Char}
    (hn : n ≤ bound) (h : readBelow bound fault n s = .ok m) : m ≤ bound := by
  induction s generalizing n with
  | nil => simp_all [readBelow]
  | cons c rest ih =>
      unfold readBelow at h
      split at h
      · simp at h
      · split at h
        · simp at h
        · rename_i hle
          exact ih (Nat.le_of_not_lt hle) h

/-- Read a natural number of at most `bound`. -/
def readNat (bound : Nat) (s : List Char) : Except NumberFault Nat :=
  match s with
  | [] => .error .emptyInteger
  | ['+'] => .error .notDigit
  | ['-'] => .error .notDigit
  | '+' :: rest => readBelow bound .tooLarge 0 rest
  | _ => readBelow bound .tooLarge 0 s

/-- A natural number that is read respects its bound. -/
theorem readNat_le {bound n : Nat} {s : List Char} (h : readNat bound s = .ok n) : n ≤ bound := by
  unfold readNat at h
  split at h <;> first | simp at h | exact readBelow_le (Nat.zero_le _) h

/-- Read a signed 64-bit number. -/
def readInt64 (s : List Char) : Except NumberFault Int64 :=
  match s with
  | [] => .error .emptyInteger
  | ['+'] => .error .notDigit
  | ['-'] => .error .notDigit
  | '-' :: rest => (readBelow (UInt64.size / 2) .tooSmall 0 rest).map fun n => Int64.ofInt (-n)
  | '+' :: rest => (readBelow (UInt64.size / 2 - 1) .tooLarge 0 rest).map fun n => Int64.ofNat n
  | _ => (readBelow (UInt64.size / 2 - 1) .tooLarge 0 s).map fun n => Int64.ofNat n

/-- Read an unsigned 64-bit number. -/
def readUInt64 (s : List Char) : Except NumberFault UInt64 :=
  (readNat (UInt64.size - 1) s).map UInt64.ofNat

/-- Read an unsigned 32-bit number. -/
def readUInt32 (s : List Char) : Except NumberFault UInt32 :=
  (readNat (UInt32.size - 1) s).map UInt32.ofNat

/-- Read one of the two truth values. -/
def readBool (s : List Char) : Except NumberFault Bool :=
  if s = "true".toList then .ok true
  else if s = "false".toList then .ok false
  else .error .notBoolean

end Decimal
end Retrace
