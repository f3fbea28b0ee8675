import Retrace.Decimal.Exact

/-!
# The fewest digits that read back

The decimals that round to a double form an interval around it, whose ends belong to it exactly when
the mantissa is even.  On the grid of the multiples of a power of ten only the two neighbours of the
double can be the nearest grid points in that interval, so the grids are tried from coarse to fine
and the first one with a neighbour in the interval gives the fewest digits.  Of two such neighbours
the nearer one is taken; an exact tie is for the caller to settle.

Main results:

- Theorem `onGrid_inside`: what a grid gives lies in the interval.
- Theorem `onGrid_none`: if a grid gives nothing, neither neighbour lies in the interval.
-/

namespace Retrace
namespace Decimal

/-- The decimal `significand * 10 ^ exponent`. -/
structure Digits where
  significand : Nat
  exponent : Int
deriving DecidableEq, Repr

/-- How an exact tie between two decimals of the same length is settled. -/
inductive Tie where
  /-- the greater one -/
  | up
  /-- the one whose last digit is even -/
  | even
deriving DecidableEq, Repr

/-- The decimals that round to a double, in units of `2 ^ exponent`. -/
structure Interval where
  low : Nat
  middle : Nat
  high : Nat
  exponent : Int
  /-- whether the two ends belong to the interval -/
  closed : Bool
deriving DecidableEq, Repr

/-- The interval of the double `mantissa * 2 ^ exponent`; below a power of two the doubles are twice
as dense, except at the least exponent. -/
def interval (mantissa : Nat) (exponent : Int) : Interval where
  low := 4 * mantissa - (if mantissa = leastNormal ∧ exponent ≠ -1074 then 1 else 2)
  middle := 4 * mantissa
  high := 4 * mantissa + 2
  exponent := exponent - 2
  closed := mantissa % 2 == 0

/-- Whether `d * 10 ^ k` lies in the interval. -/
def Interval.contains (i : Interval) (d : Nat) (k : Int) : Bool :=
  match compareValues d k i.low i.exponent with
  | .lt => false
  | .eq => i.closed
  | .gt =>
      match compareValues d k i.high i.exponent with
      | .lt => true
      | .eq => i.closed
      | .gt => false

/-- Of the neighbours `d` and `d + 1` of the middle on the grid of `10 ^ k`, the nearer one. -/
def Interval.nearer (i : Interval) (tie : Tie) (d : Nat) (k : Int) : Nat :=
  match compareValues (2 * d + 1) k (2 * i.middle) i.exponent with
  | .gt => d
  | .lt => d + 1
  | .eq =>
      match tie with
      | .up => d + 1
      | .even => if d % 2 = 0 then d else d + 1

/-- The point of the grid of `10 ^ k` that stands for the middle, if one lies in the interval. -/
def Interval.onGrid (i : Interval) (tie : Tie) (k : Int) : Option Nat :=
  let d := floorOnGrid i.middle i.exponent k
  match i.contains d k, i.contains (d + 1) k with
  | true, true => some (i.nearer tie d k)
  | true, false => some d
  | false, true => some (d + 1)
  | false, false => none

/-- Try `count` grids from `10 ^ k` downwards. -/
def Interval.search (i : Interval) (tie : Tie) : Nat → Int → Digits
  | 0, k => ⟨floorOnGrid i.middle i.exponent k, k⟩
  | count + 1, k =>
      match i.onGrid tie k with
      | some d => ⟨d, k⟩
      | none => i.search tie count (k - 1)

/-- An exponent of ten that is at most two above that of the leading digit of the double. -/
def leadingExponent (mantissa : Nat) (exponent : Int) : Int :=
  (mantissa.log2 + exponent) * 1233 / 4096 + 2

/-- The fewest digits that read back as the positive double `mantissa * 2 ^ exponent`, and of those
the nearest to it. -/
def shortest (tie : Tie) (mantissa : Nat) (exponent : Int) : Digits :=
  (interval mantissa exponent).search tie 20 (leadingExponent mantissa exponent)

/-! ## Laws -/

theorem Interval.nearer_mem (i : Interval) (tie : Tie) (d : Nat) (k : Int) :
    i.nearer tie d k = d ∨ i.nearer tie d k = d + 1 := by
  unfold Interval.nearer
  split
  · exact .inl rfl
  · exact .inr rfl
  · split
    · exact .inr rfl
    · split
      · exact .inl rfl
      · exact .inr rfl

/-- What a grid gives lies in the interval. -/
theorem Interval.onGrid_inside {i : Interval} {tie : Tie} {k : Int} {d : Nat}
    (h : i.onGrid tie k = some d) : i.contains d k = true := by
  unfold Interval.onGrid at h
  simp only at h
  split at h
  · rename_i hd hd'
    simp only [Option.some.injEq] at h
    subst h
    rcases i.nearer_mem tie (floorOnGrid i.middle i.exponent k) k with e | e
    · rw [e]
      exact hd
    · rw [e]
      exact hd'
  · simp_all
  · simp_all
  · simp at h

/-- If a grid gives nothing, neither neighbour of the middle lies in the interval. -/
theorem Interval.onGrid_none {i : Interval} {tie : Tie} {k : Int} (h : i.onGrid tie k = none) :
    i.contains (floorOnGrid i.middle i.exponent k) k = false ∧
      i.contains (floorOnGrid i.middle i.exponent k + 1) k = false := by
  unfold Interval.onGrid at h
  simp only at h
  split at h <;> simp_all

end Decimal
end Retrace
