import Retrace.Decimal.Layout

/-!
# A fixed number of places

A double is written with a given number of digits after the point.  Its exact value is rounded, a
half to the even neighbour.

Main results:

- Theorem `roundHalfEven_spec`: the rounded quotient is within half a unit of the quotient.
-/

namespace Retrace
namespace Decimal

/-- The whole number nearest to `n / d`, a half going to the even neighbour. -/
def roundHalfEven (n d : Nat) : Nat :=
  let q := n / d
  let r := n % d
  if d < 2 * r ∨ (2 * r = d ∧ q % 2 = 1) then q + 1 else q

/-- The rounded quotient is within half a unit of the quotient. -/
theorem roundHalfEven_spec (n d : Nat) (h : 0 < d) :
    2 * (roundHalfEven n d * d) ≤ 2 * n + d ∧ 2 * n ≤ 2 * (roundHalfEven n d * d) + d := by
  have hdiv := Nat.div_add_mod n d
  have hlt := Nat.mod_lt n h
  have hcomm : d * (n / d) = n / d * d := Nat.mul_comm _ _
  unfold roundHalfEven
  simp only
  split
  · rename_i hr
    rw [Nat.add_mul]
    omega
  · rename_i hr
    simp only [not_or, Nat.not_lt] at hr
    omega

/-- The value `mantissa * 2 ^ exponent` in units of `10 ^ -places`, rounded. -/
def inPlaces (places mantissa : Nat) (exponent : Int) : Nat :=
  roundHalfEven (mantissa * Nat.pow 10 places * Nat.pow 2 exponent.toNat)
    (Nat.pow 2 (-exponent).toNat)

/-- A whole number of units of `10 ^ -places` around a point. -/
def placesChars (places units : Nat) : List Char :=
  let digits := natDigits units
  let padded := List.replicate (places + 1 - digits.length) '0' ++ digits
  padded.take (padded.length - places) ++ ['.'] ++ padded.drop (padded.length - places)

/-- The text of a double with `places` digits after the point, for a positive number of places. -/
def fixed (places : Nat) (x : Float) : String :=
  match parts x with
  | .nan => "NaN"
  | .infinite negative => if negative then "-inf" else "inf"
  | .finite negative mantissa exponent =>
      String.ofList ((if negative then ['-'] else []) ++
        placesChars places (inPlaces places mantissa exponent))

end Decimal
end Retrace
