import Retrace.Decimal.Fixed
import Retrace.Decimal.Shortest
import Retrace.Proofs.DoubleBits

/-!
# Rounding a quotient to a double

Products and quotients of doubles are rounded by shifting a mantissa to the right, two bits keeping
what was shifted out.  The mantissa of a quotient after a shift is that of a quotient with a greater
divisor, so that the last step rounds the exact quotient, a half to the even neighbour.  A value in
the interval of a double is therefore rounded to that double, also where a power of two is reached
from below and the mantissa overflows.

Main results:

- Theorem `roundedMantissa_quotient`: the extended mantissa of a quotient is rounded as the quotient
  is.
- Theorem `roundWithAccuracy_of_inside`: a quotient in the interval of a double is rounded to it.
-/

namespace Retrace
namespace Decimal

open Float.Model Float.Model.UnpackedFloat

/-! ## Shifting a quotient -/

/-- The whole part of `n / d` with the two bits that tell how the rest compares with a half. -/
def quotient (n d : Nat) : ExtendedMantissa :=
  .ofMantissaAndAccuracy (n / d) (accuracyOfFraction (n % d) d)

/-- A quotient has the whole part, whether the rest is at least half, and whether it is more. -/
theorem quotient_eq (n : Nat) {d : Nat} (hd : 0 < d) :
    quotient n d =
      ⟨n / d, decide (d ≤ 2 * (n % d)), decide (n % d ≠ 0 ∧ 2 * (n % d) ≠ d)⟩ := by
  unfold quotient accuracyOfFraction
  by_cases hzero : n % d = 0
  · rw [if_pos hzero]
    simp [ExtendedMantissa.ofMantissaAndAccuracy, hzero, Nat.ne_of_gt hd]
  · rw [if_neg hzero]
    rcases Nat.lt_trichotomy (2 * (n % d)) d with h | h | h
    · rw [Nat.compare_eq_lt.2 h]
      simp [ExtendedMantissa.ofMantissaAndAccuracy, hzero, h, Nat.ne_of_lt h]
    · rw [Nat.compare_eq_eq.2 h]
      simp [ExtendedMantissa.ofMantissaAndAccuracy, h]
    · rw [Nat.compare_eq_gt.2 h]
      simp [ExtendedMantissa.ofMantissaAndAccuracy, hzero, Nat.le_of_lt h, Nat.ne_of_gt h]

/-- Half a quotient is the quotient by twice the divisor; the bit that is shifted out and the bits
below it tell how the remainder compares with the new half. -/
theorem shiftRightOne_quotient (n : Nat) {d : Nat} (hd : 0 < d) :
    (quotient n d).shiftRightOne = quotient n (d * 2) := by
  have hmod : n % (d * 2) = n % d + d * (n / d % 2) := Nat.mod_mul
  have hlt : n % d < d := Nat.mod_lt n hd
  rw [quotient_eq n hd, quotient_eq n (by omega : 0 < d * 2), hmod]
  simp only [ExtendedMantissa.shiftRightOne, ExtendedMantissa.mk.injEq, Nat.div_div_eq_div_mul,
    true_and]
  rcases Nat.mod_two_eq_zero_or_one (n / d) with heven | hodd
  · rw [heven]
    constructor
    · simp
      omega
    · rw [Bool.eq_iff_iff]
      simp
      omega
  · rw [hodd]
    constructor
    · simp
      omega
    · rw [Bool.eq_iff_iff]
      simp
      omega

/-- Shifting a quotient divides by a power of two. -/
theorem shiftRight_quotient (n : Nat) {d : Nat} (hd : 0 < d) (k : Nat) :
    quotient n d >>> k = quotient n (d * 2 ^ k) := by
  induction k with
  | zero => rw [Nat.pow_zero, Nat.mul_one]; rfl
  | succ k ih =>
      have hstep : quotient n d >>> (k + 1) = (quotient n d >>> k).shiftRightOne := rfl
      rw [hstep, ih, shiftRightOne_quotient n (Nat.mul_pos hd (Nat.two_pow_pos k)), Nat.mul_assoc,
        Nat.pow_succ]

/-- The extended mantissa of a quotient is rounded as the quotient, a half to the even neighbour. -/
theorem roundedMantissa_quotient (n : Nat) {d : Nat} (hd : 0 < d) :
    (quotient n d).roundedMantissa = roundHalfEven n d := by
  rw [quotient_eq n hd, roundHalfEven, ExtendedMantissa.roundedMantissa]
  rcases Nat.lt_trichotomy (2 * (n % d)) d with h | h | h
  · have hdown : ¬(d < 2 * (n % d) ∨ 2 * (n % d) = d ∧ n / d % 2 = 1) := by omega
    rw [if_neg hdown, decide_eq_false (Nat.not_le.2 h)]
    cases decide (n % d ≠ 0 ∧ 2 * (n % d) ≠ d) <;> rfl
  · rw [decide_eq_true (Nat.le_of_eq h.symm), decide_eq_false (by simp [h])]
    rcases Nat.mod_two_eq_zero_or_one (n / d) with heven | hodd
    · rw [if_neg (by omega)]
      simp [ExtendedMantissa.accuracy, Accuracy.roundToNearestEven, heven]
    · rw [if_pos (by omega)]
      simp [ExtendedMantissa.accuracy, Accuracy.roundToNearestEven, hodd]
  · rw [decide_eq_true (Nat.le_of_lt h), decide_eq_true (by omega), if_pos (.inl h)]
    rfl

/-- What lies within half a unit of a number, the ends counting for even numbers, is rounded to
it. -/
theorem roundHalfEven_eq {n d m : Nat} (hm : 0 < m) (hd : 0 < d)
    (hlow : (4 * m - 2) * d ≤ 4 * n) (hhigh : 4 * n ≤ (4 * m + 2) * d)
    (hodd : m % 2 = 1 → (4 * m - 2) * d < 4 * n ∧ 4 * n < (4 * m + 2) * d) :
    roundHalfEven n d = m := by
  obtain ⟨l, rfl⟩ : ∃ l, m = l + 1 := ⟨m - 1, by omega⟩
  have hdiv : d * (n / d) + n % d = n := Nat.div_add_mod n d
  have hmod : n % d < d := Nat.mod_lt n hd
  have hlow' : (4 * (l + 1) - 2) * d = 4 * (l * d) + 2 * d := by
    rw [show 4 * (l + 1) - 2 = 4 * l + 2 by omega, Nat.add_mul, Nat.mul_assoc]
  have hhigh' : (4 * (l + 1) + 2) * d = 4 * (l * d) + 6 * d := by
    rw [show 4 * (l + 1) + 2 = 4 * l + 6 by omega, Nat.add_mul, Nat.mul_assoc]
  rw [hlow'] at hlow hodd
  rw [hhigh'] at hhigh hodd
  -- the quotient is the number itself or the one below it
  have hcases : n / d = l ∨ n / d = l + 1 := by
    have hge : l ≤ n / d := by
      rw [Nat.le_div_iff_mul_le hd]
      omega
    have hle : n / d < l + 2 := by
      rw [Nat.div_lt_iff_lt_mul hd, Nat.add_mul]
      omega
    omega
  unfold roundHalfEven
  rcases hcases with hq | hq
  · rw [hq, Nat.mul_comm] at hdiv
    rw [hq, if_pos]
    omega
  · rw [hq, Nat.mul_comm, Nat.add_mul] at hdiv
    rw [hq, if_neg]
    omega

/-! ## The target exponent -/

/-- The exponent that rounding aims at leaves 53 bits, and is not below the least one. -/
theorem targetExponent_eq (t : Int) : Format.binary64.targetExponent t = max (t - 53) (-1074) := by
  simp only [Format.targetExponent]
  rfl

/-- The exponent at which a quotient is rounded: the one that gives it as many bits as a mantissa
has, or the least one. -/
theorem targetExponent_quotient {n d : Nat} {e : Int} {k : Nat} (hd : 0 < d)
    (hhigh : n < 2 ^ 53 * (d * 2 ^ k)) (hleast : -1074 ≤ e + k)
    (hlow : 2 ^ 52 * (d * 2 ^ k) ≤ n ∨ e + k = -1074) :
    Format.binary64.targetExponent (totalExponent (n / d) e) = e + k := by
  have hscale : ∀ b, 2 ^ b * (d * 2 ^ k) = 2 ^ (b + k) * d := fun b => by
    rw [Nat.pow_add, Nat.mul_comm d, Nat.mul_assoc]
  have hlog : (n / d).log2 ≤ 52 + k := by
    by_cases hzero : n / d = 0
    · rw [hzero]
      exact Nat.zero_le _
    · refine Nat.lt_succ_iff.1 ((Nat.log2_lt hzero).2 ((Nat.div_lt_iff_lt_mul hd).2 ?_))
      rwa [show (52 + k).succ = 53 + k by omega, ← hscale]
  rw [targetExponent_eq, totalExponent]
  rcases hlow with hlow | hlow
  · rw [hscale] at hlow
    have hle : 2 ^ (52 + k) ≤ n / d := (Nat.le_div_iff_mul_le hd).2 hlow
    have hne : n / d ≠ 0 := Nat.ne_of_gt (Nat.lt_of_lt_of_le (Nat.two_pow_pos _) hle)
    have hge : 52 + k ≤ (n / d).log2 := (Nat.le_log2 hne).2 hle
    omega
  · omega

/-! ## Rounding at the target exponent -/

theorem shiftToTargetExponent_of_lt {m : Nat} {e : Int} (hm : m < 2 ^ 53) (he : -1074 ≤ e) :
    shiftToTargetExponent Format.binary64 m e .exact = (⟨m, false, false⟩, e) := by
  have hlog : m.log2 ≤ 52 := by
    by_cases hzero : m = 0
    · simp [hzero]
    · have := (Nat.log2_lt hzero).2 hm
      omega
  have htarget : Format.binary64.targetExponent (totalExponent m e) ≤ e := by
    rw [targetExponent_eq, totalExponent]
    omega
  have hshift : (Format.binary64.targetExponent (totalExponent m e) - e).toNat = 0 := by omega
  rw [shiftToTargetExponent, shiftToExponent, hshift, Int.natCast_zero, Int.add_zero]
  rfl

/-- A mantissa that overflows is halved. -/
theorem shiftToTargetExponent_overflow {e : Int} (he : -1074 ≤ e) :
    shiftToTargetExponent Format.binary64 (2 ^ 53) e .exact = (⟨2 ^ 52, false, false⟩, e + 1) := by
  have htarget : Format.binary64.targetExponent (totalExponent (2 ^ 53) e) = e + 1 := by
    rw [targetExponent_eq, totalExponent, Nat.log2_two_pow]
    omega
  have hshift : (e + 1 - e).toNat = 1 := by omega
  rw [shiftToTargetExponent, htarget, shiftToExponent, hshift]
  rfl

variable {n d k : Nat} {e : Int} {s : Sign}

/-- Rounding shifts a quotient to its exponent. -/
theorem shiftToTargetExponent_quotient (hd : 0 < d)
    (htarget : Format.binary64.targetExponent (totalExponent (n / d) e) = e + k) :
    shiftToTargetExponent Format.binary64 (n / d) e (accuracyOfFraction (n % d) d) =
      (quotient n (d * 2 ^ k), e + k) := by
  have hshift : (e + k - e).toNat = k := by omega
  rw [shiftToTargetExponent, htarget, shiftToExponent, hshift, ← shiftRight_quotient n hd]
  rfl

/-- A quotient that rounds to a mantissa becomes that mantissa. -/
theorem roundWithAccuracy_of_lt {m : Nat} (hd : 0 < d) (he : -1074 ≤ e + k)
    (htarget : Format.binary64.targetExponent (totalExponent (n / d) e) = e + k)
    (hround : roundHalfEven n (d * 2 ^ k) = m) (hpos : 0 < m) (hlt : m < 2 ^ 53) :
    roundWithAccuracy Format.binary64 s (n / d) e (accuracyOfFraction (n % d) d) =
      .finite s m (e + k) hpos := by
  rw [roundWithAccuracy, shiftToTargetExponent_quotient hd htarget]
  simp only [roundedMantissa_quotient n (Nat.mul_pos hd (Nat.two_pow_pos k)), hround,
    shiftToTargetExponent_of_lt hlt he, Nat.ne_of_gt hpos, dite_false]

/-- A quotient that rounds up to the next power of two becomes that power. -/
theorem roundWithAccuracy_overflow (hd : 0 < d) (he : -1074 ≤ e + k)
    (htarget : Format.binary64.targetExponent (totalExponent (n / d) e) = e + k)
    (hround : roundHalfEven n (d * 2 ^ k) = 2 ^ 53) :
    roundWithAccuracy Format.binary64 s (n / d) e (accuracyOfFraction (n % d) d) =
      .finite s (2 ^ 52) (e + k + 1) (Nat.two_pow_pos 52) := by
  rw [roundWithAccuracy, shiftToTargetExponent_quotient hd htarget]
  simp only [roundedMantissa_quotient n (Nat.mul_pos hd (Nat.two_pow_pos k)), hround,
    shiftToTargetExponent_overflow he]
  rfl

/-! ## Values in the interval of a double -/

/-- Below a power of two the next double is half as far away. -/
theorem low_interval_of_power {m : Nat} {e : Int} (h : m = 2 ^ 52 ∧ e ≠ -1074) :
    (interval m e).low = 4 * m - 1 :=
  congrArg (4 * m - ·) (if_pos h)

/-- Otherwise both neighbours are equally far away. -/
theorem low_interval {m : Nat} {e : Int} (h : ¬(m = 2 ^ 52 ∧ e ≠ -1074)) :
    (interval m e).low = 4 * m - 2 :=
  congrArg (4 * m - ·) (if_neg h)

/-- The upper end of an interval is halfway to the next double. -/
theorem high_interval (m : Nat) (e : Int) : (interval m e).high = 4 * m + 2 := rfl

/-- The ends belong to the interval of an even mantissa. -/
theorem closed_interval (m : Nat) (e : Int) : (interval m e).closed = (m % 2 == 0) := rfl

/-- A quotient just below a power of two, where the doubles are twice as dense as above it, is
rounded up to the power. -/
theorem roundWithAccuracy_below_power {l : Nat} (hd : 0 < d) (he : -1074 ≤ e + l)
    (hlow : (4 * 2 ^ 52 - 1) * (d * 2 ^ (l + 1)) ≤ 4 * n)
    (habove : n < 2 ^ 52 * (d * 2 ^ (l + 1))) :
    roundWithAccuracy Format.binary64 s (n / d) e (accuracyOfFraction (n % d) d) =
      .finite s (2 ^ 52) (e + l + 1) (Nat.two_pow_pos 52) := by
  have hscale : 0 < d * 2 ^ l := Nat.mul_pos hd (Nat.two_pow_pos l)
  have hhalf : d * 2 ^ (l + 1) = 2 * (d * 2 ^ l) := by
    rw [Nat.pow_succ, ← Nat.mul_assoc, Nat.mul_comm]
  rw [hhalf] at hlow habove
  have htarget := @targetExponent_quotient n d e l hd (by omega) he (.inl (by omega))
  have hround : roundHalfEven n (d * 2 ^ l) = 2 ^ 53 :=
    roundHalfEven_eq (by decide) hscale (by omega) (by omega) (by omega)
  exact roundWithAccuracy_overflow hd he htarget hround

/-- A quotient in the interval of a double is rounded to it. -/
theorem roundWithAccuracy_of_inside {m : Nat} (hm : 0 < m) (hdouble : IsDouble m (e + k))
    (hd : 0 < d) (henough : 2 ^ 52 * d ≤ n ∨ e ≤ -1074)
    (hlow : (interval m (e + k)).low * (d * 2 ^ k) ≤ 4 * n)
    (hhigh : 4 * n ≤ (interval m (e + k)).high * (d * 2 ^ k))
    (hopen : (interval m (e + k)).closed = false →
      (interval m (e + k)).low * (d * 2 ^ k) < 4 * n ∧
        4 * n < (interval m (e + k)).high * (d * 2 ^ k)) :
    roundWithAccuracy Format.binary64 s (n / d) e (accuracyOfFraction (n % d) d) =
      .finite s m (e + k) hm := by
  obtain ⟨hlt, hleast, -, hnormal⟩ := hdouble
  rw [leastNormal_eq] at hnormal
  have hscale : 0 < d * 2 ^ k := Nat.mul_pos hd (Nat.two_pow_pos k)
  rw [high_interval] at hhigh hopen
  rw [closed_interval, beq_eq_false_iff_ne] at hopen
  have hbelow : n < 2 ^ 53 * (d * 2 ^ k) := by
    have h := Nat.mul_le_mul_right (d * 2 ^ k) (by omega : 4 * m + 2 ≤ 4 * 2 ^ 53 - 2)
    rw [Nat.sub_mul, Nat.mul_assoc] at h
    omega
  by_cases hbinade : 2 ^ 52 * (d * 2 ^ k) ≤ n ∨ e + k = -1074
  · -- the value has the exponent of the double
    have htarget := targetExponent_quotient hd hbelow hleast hbinade
    refine roundWithAccuracy_of_lt hd hleast htarget ?_ hm hlt
    by_cases hpower : m = 2 ^ 52 ∧ e + k ≠ -1074
    · have hge : 2 ^ 52 * (d * 2 ^ k) ≤ n := hbinade.resolve_right hpower.2
      refine roundHalfEven_eq hm hscale ?_ hhigh fun hodd => by omega
      rw [hpower.1, Nat.sub_mul, Nat.mul_assoc]
      omega
    · rw [low_interval hpower] at hlow hopen
      exact roundHalfEven_eq hm hscale hlow hhigh fun hodd => hopen (by omega)
  · -- the value is just below a power of two
    obtain ⟨habove, hexponent⟩ := not_or.1 hbinade
    have hge : 2 ^ 52 ≤ m := hnormal.resolve_right hexponent
    have hpower : m = 2 ^ 52 := by
      apply Nat.le_antisymm (Nat.not_lt.1 fun hgt => ?_) hge
      rw [low_interval (by omega)] at hlow
      have h := Nat.mul_le_mul_right (d * 2 ^ k) (by omega : 4 * 2 ^ 52 ≤ 4 * m - 2)
      rw [Nat.mul_assoc] at h
      omega
    rw [low_interval_of_power ⟨hpower, hexponent⟩, hpower] at hlow
    rw [hpower] at hhigh
    -- enough bits are there for one shift less
    obtain ⟨l, rfl⟩ : ∃ l, k = l + 1 := by
      refine ⟨k - 1, (Nat.sub_add_cancel (Nat.pos_of_ne_zero fun hzero => ?_)).symm⟩
      rw [hzero, Nat.pow_zero, Nat.mul_one] at habove
      omega
    have hexp : e + ((l + 1 : Nat) : Int) = e + l + 1 := by omega
    rw [roundWithAccuracy_below_power hd (by omega) hlow (Nat.not_le.1 habove)]
    simp only [hexp, hpower]

end Decimal
end Retrace
