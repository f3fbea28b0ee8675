import Retrace.Decimal.Shortest

/-!
# Decimal text of a double

A double is written with the fewest digits that read back.  A layout says when the digits stand
around a point and when a power of ten follows them, whether whole numbers keep their point, and how
the values that are no numbers are written.  Three layouts are used: one that can be read back with
its type visible, one for sentences, and the one of JSON.
-/

namespace Retrace
namespace Decimal

/-- How the digits of a double are laid out. -/
structure Layout where
  /-- which of two equally near decimals is taken -/
  tie : Tie
  /-- least and greatest exponent of the leading digit that are written around a point; `none` if
  all are -/
  positional : Option (Int × Int)
  /-- whether a whole number keeps a point and a zero -/
  keepPoint : Bool
  /-- whether a positive exponent has a sign -/
  signedExponent : Bool
  /-- the text of a value that is not a number -/
  nan : String
  /-- the text of infinity; nothing if infinities are written like values that are not numbers -/
  infinity : Option String
deriving DecidableEq, Repr

/-- The layout of records and diagnostics: `1.0`, `0.0001`, `1e16`, `1.5e-5`, `NaN`, `inf`. -/
def recorded : Layout where
  tie := .up
  positional := some (-4, 15)
  keepPoint := true
  signedExponent := false
  nan := "NaN"
  infinity := some "inf"

/-- The layout of sentences: never a power of ten, no needless point. -/
def plain : Layout where
  tie := .up
  positional := none
  keepPoint := false
  signedExponent := false
  nan := "NaN"
  infinity := some "inf"

/-- The layout of JSON numbers; what is not finite is `null`. -/
def json : Layout where
  tie := .even
  positional := some (-5, 15)
  keepPoint := true
  signedExponent := true
  nan := "null"
  infinity := none

/-- The decimal digits of a natural number. -/
def natDigits (n : Nat) : List Char :=
  Nat.toDigits 10 n

/-- The decimal digits of an integer, with its sign. -/
def intDigits : Int → List Char
  | .ofNat n => natDigits n
  | .negSucc n => '-' :: natDigits (n + 1)

namespace Layout

/-- Whether digits whose leading one has this exponent are written around a point. -/
def isPositional (l : Layout) (leading : Int) : Bool :=
  match l.positional with
  | none => true
  | some (least, greatest) => least ≤ leading && leading ≤ greatest

/-- Digits around a point; `exponent` is that of the last digit. -/
def around (l : Layout) (digits : List Char) (exponent : Int) : List Char :=
  let before := digits.length + exponent
  if 0 ≤ exponent then
    digits ++ List.replicate exponent.toNat '0' ++ (if l.keepPoint then ['.', '0'] else [])
  else if 0 < before then
    digits.take before.toNat ++ ['.'] ++ digits.drop before.toNat
  else
    ['0', '.'] ++ List.replicate (-before).toNat '0' ++ digits

/-- Digits with a power of ten; `leading` is the exponent of the first digit. -/
def withPower (l : Layout) (digits : List Char) (leading : Int) : List Char :=
  let fraction := digits.drop 1
  digits.take 1 ++ (if fraction.isEmpty then [] else '.' :: fraction) ++ ['e'] ++
    (if l.signedExponent && 0 < leading then ['+'] else []) ++ intDigits leading

/-- A positive finite double. -/
def positive (l : Layout) (mantissa : Nat) (exponent : Int) : List Char :=
  let d := shortest l.tie mantissa exponent
  let digits := natDigits d.significand
  let leading := digits.length + d.exponent - 1
  if l.isPositional leading then l.around digits d.exponent else l.withPower digits leading

/-- The characters of a double. -/
def chars (l : Layout) (x : Float) : List Char :=
  match parts x with
  | .nan => l.nan.toList
  | .infinite negative =>
      match l.infinity with
      | some text => (if negative then ['-'] else []) ++ text.toList
      | none => l.nan.toList
  | .finite negative mantissa exponent =>
      (if negative then ['-'] else []) ++
        (if mantissa = 0 then l.around ['0'] 0 else l.positive mantissa exponent)

/-- The text of a double. -/
def render (l : Layout) (x : Float) : String :=
  String.ofList (l.chars x)

end Layout
end Decimal
end Retrace
