/-!
# The exact value of a double

A finite double is a natural number times a power of two, with a sign.  This module takes a double
apart and compares such binary values with decimal values `d * 10 ^ k`, by whole numbers only.

Main results:

- Theorem `le_floorOnGrid_iff`: the floor on a decimal grid is the greatest grid point that does not
  exceed the value.
-/

namespace Retrace
namespace Decimal

/-- A double taken apart; a finite one is `mantissa * 2 ^ exponent` with the given sign. -/
inductive Parts where
  | nan
  | infinite (negative : Bool)
  | finite (negative : Bool) (mantissa : Nat) (exponent : Int)
deriving DecidableEq, Repr

/-- The number of fractions of fifty-two bits, which is the least mantissa of a normal double. -/
def leastNormal : Nat := 0x10000000000000

/-- Take a double apart by its bits: a sign, eleven bits of exponent, fifty-two of fraction. -/
def parts (x : Float) : Parts :=
  let bits := x.toBits.toNat
  let negative : Bool := 2048 * leastNormal ≤ bits
  let field : Nat := bits / leastNormal % 2048
  let fraction : Nat := bits % leastNormal
  if field = 2047 then
    if fraction = 0 then .infinite negative else .nan
  else if field = 0 then
    .finite negative fraction (-1074)
  else
    .finite negative (leastNormal + fraction) (field - 1075)

/-! ## Whole numbers for binary and decimal values -/

/-- The value `d * 10 ^ k`, multiplied by the common denominator of it and `2 ^ e`. -/
def scaledDecimal (d : Nat) (k e : Int) : Nat :=
  d * Nat.pow 10 k.toNat * Nat.pow 2 (-e).toNat

/-- The value `n * 2 ^ e`, multiplied by the common denominator of it and `10 ^ k`. -/
def scaledBinary (n : Nat) (e k : Int) : Nat :=
  n * Nat.pow 2 e.toNat * Nat.pow 10 (-k).toNat

/-- Compare `d * 10 ^ k` with `n * 2 ^ e`. -/
def compareValues (d : Nat) (k : Int) (n : Nat) (e : Int) : Ordering :=
  compare (scaledDecimal d k e) (scaledBinary n e k)

/-- The greatest `d` for which `d * 10 ^ k` does not exceed `n * 2 ^ e`. -/
def floorOnGrid (n : Nat) (e k : Int) : Nat :=
  scaledBinary n e k / scaledDecimal 1 k e

theorem scaledDecimal_eq_mul (d : Nat) (k e : Int) :
    scaledDecimal d k e = d * scaledDecimal 1 k e := by
  simp [scaledDecimal, Nat.mul_assoc]

theorem scaledDecimal_one_pos (k e : Int) : 0 < scaledDecimal 1 k e := by
  simp only [scaledDecimal, Nat.one_mul]
  exact Nat.mul_pos (Nat.pow_pos (by decide)) (Nat.pow_pos (by decide))

/-- A grid point lies at or below the value exactly when it lies at or below the floor. -/
theorem le_floorOnGrid_iff (d n : Nat) (e k : Int) :
    d ≤ floorOnGrid n e k ↔ scaledDecimal d k e ≤ scaledBinary n e k := by
  rw [floorOnGrid, Nat.le_div_iff_mul_le (scaledDecimal_one_pos k e), scaledDecimal_eq_mul d]

end Decimal
end Retrace
