import Mathlib.Algebra.Order.Ring.Basic
import Mathlib.Algebra.Order.Ring.Rat
import Retrace.Proofs.DenseProducts

/-!
# Powers of the shifted inner product

A polynomial kernel takes any unsigned degree but raises to it as a signed 32-bit exponent.  Degrees
in the lower half of the range keep their value.  The others turn negative, so that the kernel
returns the reciprocal of a power, with what the degree lacks to the whole range for an exponent.

Main results:

- Theorem `Scalar.power_eq_zpow`: squaring over and over gives the integer power.
- Theorem `Kernel.toInt_toInt32`: what a degree is as a signed exponent.
- Theorem `Kernel.polynomialValue_exact`: what a polynomial kernel computes at every degree, and
  where it is the power that the degree states.
-/

namespace Retrace

/-! ## Powers -/

/-- Squaring and multiplying gives the power. -/
theorem Scalar.powerFrom_eq (result base : ℚ) (n : ℕ) :
    powerFrom result base n = result * base ^ n := by
  fun_induction powerFrom result base n with
  | case1 result base n result' hlast =>
      have hbit : n = n % 2 := by omega
      rw [hbit]
      rcases Nat.mod_two_eq_zero_or_one n with h | h <;> simp [result', h]
  | case2 result base n result' hmore ih =>
      -- the square of the base takes half of the exponent, the last binary digit aside
      have hhalf : base ^ n = base ^ (n % 2) * (base * base) ^ (n / 2) := by
        rw [← pow_two, ← pow_mul, ← pow_add, Nat.mod_add_div]
      rw [ih, hhalf, ← mul_assoc]
      congr 1
      rcases Nat.mod_two_eq_zero_or_one n with h | h <;> simp [result', h]

/-- Squaring the base over and over gives the power, also for a negative exponent. -/
theorem Scalar.power_eq_zpow (base : ℚ) (n : ℤ) : power base n = base ^ n := by
  rw [power, powerFrom_eq]
  change (if n < 0 then 1 / (1 * base ^ n.natAbs) else 1 * base ^ n.natAbs) = base ^ n
  rw [one_mul, one_div]
  split
  · rename_i hneg
    rw [← zpow_natCast, ← zpow_neg]
    congr 1
    omega
  · rename_i hnonneg
    rw [← zpow_natCast]
    congr 1
    omega

/-- The reciprocal of one power is another power exactly if the power with both exponents together
is one. -/
theorem inv_pow_eq_pow_iff {base : ℚ} (hbase : base ≠ 0) {n m : ℕ} (hsum : n + m ≠ 0)
    (heven : Even (n + m)) : (base ^ m)⁻¹ = base ^ n ↔ base = 1 ∨ base = -1 := by
  rw [eq_comm, ← mul_eq_one_iff_eq_inv₀ (pow_ne_zero m hbase), ← pow_add, pow_eq_one_iff_cases]
  simp only [hsum, heven, false_or, and_true]

namespace Kernel

/-- A degree as a signed exponent: the lower half of the range stays, the upper half is negative. -/
theorem toInt_toInt32 (degree : UInt32) :
    degree.toInt32.toInt =
      if degree.toNat < 2 ^ 31 then (degree.toNat : ℤ) else degree.toNat - (2 ^ 32 : ℕ) := by
  change degree.toBitVec.toInt = _
  rw [BitVec.toInt_eq_toNat_cond, UInt32.toNat_toBitVec]
  split <;> split <;> first | rfl | omega

section Degrees

variable (degree : UInt32) (gamma coef0 : ℚ) (x y : SparseVector ℚ)

/-- Up to 31 bits the degree is the exponent. -/
theorem polynomialValue_of_lt (h : degree.toNat < 2 ^ 31) :
    polynomialValue degree gamma coef0 x y = (gamma * x.dot y + coef0) ^ degree.toNat := by
  rw [polynomialValue, Scalar.power_eq_zpow, toInt_toInt32, if_pos h]
  exact zpow_natCast _ _

/-- From 31 bits on the exponent is negative. -/
theorem polynomialValue_of_le (h : 2 ^ 31 ≤ degree.toNat) :
    polynomialValue degree gamma coef0 x y =
      ((gamma * x.dot y + coef0) ^ (2 ^ 32 - degree.toNat))⁻¹ := by
  have hlack : (degree.toNat : ℤ) - (2 ^ 32 : ℕ) = -((2 ^ 32 - degree.toNat : ℕ) : ℤ) := by
    have := degree.toNat_lt
    omega
  rw [polynomialValue, Scalar.power_eq_zpow, toInt_toInt32, if_neg (Nat.not_lt.2 h), hlack,
    zpow_neg, zpow_natCast]

end Degrees

/-- Over exact numbers a polynomial kernel raises the scaled and shifted sum of the products at all
indices to its degree where that is below half of the unsigned range.  For a greater degree it
returns the reciprocal of a power, which is not the power that the degree states unless the sum is
one or negative one.  A kernel that was made with the degree computes just this. -/
theorem polynomialValue_exact (degree : UInt32) (gamma coef0 : ℚ) {x y : SparseVector ℚ}
    (hx : x.Strict) (hy : y.Strict) :
    let base := gamma * (∑ᶠ i, x.get i * y.get i) + coef0
    (degree.toNat < 2 ^ 31 → polynomialValue degree gamma coef0 x y = base ^ degree.toNat) ∧
      (2 ^ 31 ≤ degree.toNat →
        polynomialValue degree gamma coef0 x y = (base ^ (2 ^ 32 - degree.toNat))⁻¹) ∧
      (base ≠ 0 → (polynomialValue degree gamma coef0 x y = base ^ degree.toNat ↔
        degree.toNat < 2 ^ 31 ∨ base = 1 ∨ base = -1)) ∧
      ∀ (g c : Float) (k : Kernel), mkPolynomial degree g c = .ok k →
        ∀ u v, k.value? u v = some (polynomialValue degree g c u v) := by
  intro base
  have hlow := polynomialValue_of_lt degree gamma coef0 x y
  have hhigh := polynomialValue_of_le degree gamma coef0 x y
  rw [SparseVector.dot_eq_finsum hx hy] at hlow hhigh
  refine ⟨hlow, hhigh, fun hbase => ?_, fun g c k hk u v => ?_⟩
  · rcases Nat.lt_or_ge degree.toNat (2 ^ 31) with hlt | hge
    · exact ⟨fun _ => .inl hlt, fun _ => hlow hlt⟩
    · have hlt : degree.toNat < 2 ^ 32 := degree.toNat_lt
      have heven : Even (degree.toNat + (2 ^ 32 - degree.toNat)) := ⟨2 ^ 31, by omega⟩
      have hiff := inv_pow_eq_pow_iff hbase (by omega) heven
      rw [hhigh hge]
      constructor
      · exact fun heq => .inr (hiff.1 heq)
      · exact fun h => hiff.2 (h.resolve_left (Nat.not_lt.2 hge))
  · unfold mkPolynomial at hk
    split at hk
    · cases hk
    · split at hk
      · cases hk
        rfl
      · cases hk

/-- At the greatest degree the value of an inner product of two is one half. -/
theorem polynomialValue_exact_half :
    let x : SparseVector ℚ := ⟨[0], [1]⟩
    let y : SparseVector ℚ := ⟨[0], [2]⟩
    x.Strict ∧ y.Strict ∧ polynomialValue 4294967295 1 0 x y = 1 / 2 := by
  intro x y
  have hx : x.Strict := ⟨rfl, by simp [x]⟩
  have hy : y.Strict := ⟨rfl, by simp [y]⟩
  have hsum : ∑ᶠ i, x.get i * y.get i = 2 := by
    rw [← SparseVector.dot_eq_finsum hx hy]
    decide +kernel
  have hvalue := (polynomialValue_exact 4294967295 1 0 hx hy).2.1 (by decide)
  rw [hsum] at hvalue
  exact ⟨hx, hy, hvalue.trans (by decide +kernel)⟩

/-- The greatest degree is accepted, and two to the power of it is not what the kernel returns. -/
theorem polynomialValue_ne_power :
    mkPolynomial 4294967295 1 0 = .ok (.polynomial 4294967295 1 0) ∧
      (Kernel.polynomial 4294967295 1 0).value? ⟨[0], [1]⟩ ⟨[0], [2]⟩ = some 0.5 ∧
      (Kernel.polynomial 4294967295 1 0).value? ⟨[0], [1]⟩ ⟨[1], [1]⟩ = some (1 / 0) ∧
      polynomialValue 4294967295 1 0 (⟨[0], [1]⟩ : SparseVector ℚ) ⟨[0], [2]⟩ ≠
        (1 * (⟨[0], [1]⟩ : SparseVector ℚ).dot ⟨[0], [2]⟩ + 0) ^ 4294967295 := by
  refine ⟨by decide +kernel, by decide +kernel, by decide +kernel, fun heq => ?_⟩
  have hvalue : polynomialValue 4294967295 1 0 (⟨[0], [1]⟩ : SparseVector ℚ) ⟨[0], [2]⟩ < 1 := by
    decide +kernel
  have hbase : (1 : ℚ) ≤ 1 * (⟨[0], [1]⟩ : SparseVector ℚ).dot ⟨[0], [2]⟩ + 0 := by
    decide +kernel
  exact absurd (one_le_pow₀ hbase) (not_le_of_gt (heq ▸ hvalue))

end Kernel
end Retrace
