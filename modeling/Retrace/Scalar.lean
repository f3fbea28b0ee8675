/-!
# Scalars

Kernels and the solver are written over any type with the arithmetic and the comparisons of a
scalar.  They run over doubles and are reasoned about over exact rational numbers.  What is special
to doubles is part of the definitions: a value that is not equal to itself is no number, sums start
at negative zero, and bounds must be ordered before a value is brought between them.
-/

namespace Retrace

/-- The arithmetic and the comparisons that learning needs. -/
class Scalar (α : Type) extends Zero α, One α, Add α, Sub α, Mul α, Div α, Neg α, LT α, LE α, BEq α,
    OfScientific α where
  decideLT (x y : α) : Decidable (x < y)
  decideLE (x y : α) : Decidable (x ≤ y)

instance Scalar.decidableLT {α : Type} [Scalar α] (x y : α) : Decidable (x < y) :=
  Scalar.decideLT x y

instance Scalar.decidableLE {α : Type} [Scalar α] (x y : α) : Decidable (x ≤ y) :=
  Scalar.decideLE x y

instance : Scalar Float where
  decideLT := inferInstance
  decideLE := inferInstance

instance : Scalar Rat where
  toZero := @Zero.ofOfNat0 Rat Rat.instOfNat
  toOne := @One.ofOfNat1 Rat Rat.instOfNat
  decideLT := inferInstance
  decideLE := inferInstance

namespace Scalar

variable {α : Type} [Scalar α]

/-- The sum of a list from the left; the sum of nothing is negative zero. -/
def total (values : List α) : α :=
  values.foldl (fun sum v => sum + v) (-0)

/-- The sum of the squares of a list. -/
def sumOfSquares (values : List α) : α :=
  total (values.map fun v => v * v)

/-- The greater of two values, the second of two equal ones; a value that is no number gives way to
the other. -/
def larger (x y : α) : α :=
  if x == x && !decide (x ≤ y) then x else y

/-- The lesser of two values, the second of two equal ones; a value that is no number gives way to
the other. -/
def smaller (x y : α) : α :=
  if x == x && !decide (y ≤ x) then x else y

/-- The distance of a value from zero. -/
def magnitude (x : α) : α :=
  if x < 0 then -x else x

/-- The value brought between two bounds; nothing if the bounds are not in order. -/
def clamp? (low high x : α) : Option α :=
  if low ≤ high then
    some (if x < low then low else if high < x then high else x)
  else
    none

/-- Multiply `result` by `base` to the power `n`, squaring the base as often as `n` has binary
digits. -/
def powerFrom (result base : α) (n : Nat) : α :=
  let result := if n % 2 = 1 then result * base else result
  if n / 2 = 0 then result else powerFrom result (base * base) (n / 2)
termination_by n
decreasing_by omega

/-- A power with an integer exponent; a negative exponent inverts the result. -/
def power (base : α) (n : Int) : α :=
  let result := powerFrom 1 base n.natAbs
  if n < 0 then 1 / result else result

end Scalar
end Retrace
