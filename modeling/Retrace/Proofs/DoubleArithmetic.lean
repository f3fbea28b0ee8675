import Retrace.Decimal.Reading
import Retrace.Proofs.Rounding

/-!
# Products and quotients as doubles

The values that round to one double form an interval.  A product or a quotient of whole numbers that
lies in the interval is computed as that double, and so is a decimal numeral with such a value.

Main results:

- Theorems `mul_of_holds` and `div_of_holds`: products and quotients in the interval of a double.
- Theorem `toFloat_of_holds`: a numeral whose value is in the interval of a double is read as it.
- Theorem `isFinite_nearest`: a small whole number is read as a finite double.
-/

namespace Retrace
namespace Decimal

open Float.Model Float.Model.UnpackedFloat

/-! ## Values in an interval -/

/-- Whether a value rounds to the double of an interval. -/
structure Interval.Holds (i : Interval) (v : ℚ) : Prop where
  low : i.low * 2 ^ i.exponent ≤ v
  high : v ≤ i.high * 2 ^ i.exponent
  inner : i.closed = false → i.low * 2 ^ i.exponent < v ∧ v < i.high * 2 ^ i.exponent

/-- A quotient and the quarters of the unit at a greater exponent have a common scale. -/
theorem exists_scale (n : Nat) {d : Nat} (hd : 0 < d) (e : Int) (k : Nat) :
    ∃ c : ℚ, 0 < c ∧ (n : ℚ) / d * 2 ^ e = (4 * n : Nat) * c ∧
      ∀ b : Nat, (b : ℚ) * 2 ^ (e + k - 2) = (b * (d * 2 ^ k) : Nat) * c := by
  have hd' : (0 : ℚ) < d := by exact_mod_cast hd
  have hpow : (2 : ℚ) ^ (e + k - 2) = 2 ^ e * 2 ^ k / 4 := by
    rw [zpow_sub₀ (by norm_num), zpow_add₀ (by norm_num), zpow_natCast]
    norm_num
  refine ⟨2 ^ e / (4 * d), by positivity, ?_, fun b => ?_⟩
  · push_cast
    field_simp
  · rw [hpow]
    push_cast
    field_simp

variable {m : Nat} {e : Int} {s : Sign}

theorem low_lt_middle (hm : 0 < m) (e : Int) : (interval m e).low < 4 * m := by
  by_cases hpower : m = 2 ^ 52 ∧ e ≠ -1074
  · rw [low_interval_of_power hpower]
    omega
  · rw [low_interval hpower]
    omega

/-- A double lies in its own interval. -/
theorem holds_self (hm : 0 < m) (e : Int) : (interval m e).Holds (m * 2 ^ e) := by
  have hunit : (0 : ℚ) < 2 ^ (e - 2) := by positivity
  have hvalue : (m : ℚ) * 2 ^ e = (4 * m : Nat) * 2 ^ (e - 2) := by
    rw [zpow_sub₀ (by norm_num)]
    push_cast
    ring
  have hlow : ((interval m e).low : ℚ) * 2 ^ (e - 2) < m * 2 ^ e := by
    rw [hvalue]
    exact mul_lt_mul_of_pos_right (by exact_mod_cast low_lt_middle hm e) hunit
  have hhigh : (m : ℚ) * 2 ^ e < (interval m e).high * 2 ^ (e - 2) := by
    rw [hvalue, high_interval]
    exact mul_lt_mul_of_pos_right (by exact_mod_cast Nat.lt_add_of_pos_right (by decide)) hunit
  exact ⟨hlow.le, hhigh.le, fun _ => ⟨hlow, hhigh⟩⟩

/-- A value in the interval of a double lies below the next power of two after the greatest
mantissa. -/
theorem Interval.Holds.lt {v : ℚ} (h : (interval m e).Holds v) (hdouble : IsDouble m e) :
    v < 2 ^ (e + 53) := by
  have hmantissa : (4 * m + 2 : ℚ) < 2 ^ 55 := by
    have hlt := hdouble.lt
    exact_mod_cast (by omega : 4 * m + 2 < 2 ^ 55)
  calc v ≤ (4 * m + 2 : Nat) * 2 ^ (e - 2) := h.high
    _ < 2 ^ 55 * 2 ^ (e - 2) := by
      push_cast
      exact mul_lt_mul_of_pos_right hmantissa (by positivity)
    _ = 2 ^ (e + 53) := by
      rw [← zpow_natCast, ← zpow_add₀ (by norm_num)]
      congr 1
      omega

/-- A quotient with enough bits that lies in the interval of a double is rounded to it. -/
theorem roundWithAccuracy_of_holds {n d : Nat} {e' : Int} (hm : 0 < m) (hdouble : IsDouble m e)
    (hd : 0 < d) (henough : 2 ^ 52 * d ≤ n ∨ e' ≤ -1074)
    (h : (interval m e).Holds (n / d * 2 ^ e')) :
    roundWithAccuracy Format.binary64 s (n / d) e' (accuracyOfFraction (n % d) d) =
      .finite s m e hm := by
  have hle : e' ≤ e := by
    rcases henough with henough | hleast
    · have hd' : (0 : ℚ) < d := by exact_mod_cast hd
      have hquotient : (2 : ℚ) ^ 52 ≤ n / d := by
        rw [le_div_iff₀ hd']
        exact_mod_cast henough
      have hlt : (2 : ℚ) ^ (52 + e') < 2 ^ (e + 53) := by
        refine lt_of_le_of_lt ?_ (h.lt hdouble)
        rw [zpow_add₀ (by norm_num)]
        exact mul_le_mul_of_nonneg_right hquotient (by positivity)
      have := (zpow_lt_zpow_iff_right₀ (by norm_num : (1 : ℚ) < 2)).1 hlt
      omega
    · exact le_trans hleast hdouble.least
  obtain ⟨k, rfl⟩ : ∃ k : Nat, e = e' + k := ⟨(e - e').toNat, by omega⟩
  obtain ⟨c, hc, hvalue, hunit⟩ := exists_scale n hd e' k
  obtain ⟨hlow, hhigh, hinner⟩ := h
  have hexponent : (interval m (e' + k)).exponent = e' + k - 2 := rfl
  rw [hexponent, hvalue, hunit] at hlow hinner
  rw [hexponent, hvalue, hunit] at hhigh
  rw [hunit] at hinner
  rw [mul_le_mul_iff_left₀ hc, Nat.cast_le] at hlow hhigh
  rw [mul_lt_mul_iff_left₀ hc, mul_lt_mul_iff_left₀ hc, Nat.cast_lt, Nat.cast_lt] at hinner
  exact roundWithAccuracy_of_inside hm hdouble hd henough hlow hhigh hinner

/-! ## Products and quotients -/

/-- A product with enough bits that lies in the interval of a double is that double. -/
theorem mul_of_holds {s₁ s₂ : Sign} {m₁ m₂ : Nat} {e₁ e₂ : Int} {h₁ : 0 < m₁} {h₂ : 0 < m₂}
    (hm : 0 < m) (hdouble : IsDouble m e) (henough : 2 ^ 52 ≤ m₁ * m₂)
    (h : (interval m e).Holds ((m₁ * 2 ^ e₁) * (m₂ * 2 ^ e₂))) :
    mul Format.binary64 (.finite s₁ m₁ e₁ h₁) (.finite s₂ m₂ e₂ h₂) =
      .finite (s₁ * s₂) m e hm := by
  have hvalue : ((m₁ * m₂ : Nat) : ℚ) / (1 : Nat) * 2 ^ (e₁ + e₂) =
      (m₁ * 2 ^ e₁) * (m₂ * 2 ^ e₂) := by
    rw [zpow_add₀ (by norm_num)]
    push_cast
    ring
  rw [← hvalue] at h
  have hround := @roundWithAccuracy_of_holds m e (s₁ * s₂) (m₁ * m₂) 1 (e₁ + e₂) hm hdouble
    (by decide) (.inl (by rwa [Nat.mul_one])) h
  rw [Nat.div_one, Nat.mod_one] at hround
  exact hround

/-- A quotient that lies in the interval of a double is that double. -/
theorem div_of_holds {s₁ s₂ : Sign} {m₁ m₂ : Nat} {e₁ e₂ : Int} {h₁ : 0 < m₁} {h₂ : 0 < m₂}
    (hm : 0 < m) (hdouble : IsDouble m e)
    (h : (interval m e).Holds ((m₁ * 2 ^ e₁) / (m₂ * 2 ^ e₂))) :
    div Format.binary64 (.finite s₁ m₁ e₁ h₁) (.finite s₂ m₂ e₂ h₂) =
      .finite (s₁ / s₂) m e hm := by
  rw [UnpackedFloat.div, divCore]
  simp only [targetExponent_eq, totalExponent, Nat.shiftLeft_eq]
  generalize htarget : min (e₁ - e₂)
    (max ((m₁.log2 : Int) + 1 + e₁ - (m₂.log2 + 1 + e₂) - 53) (-1074)) = target
  obtain ⟨a, ha⟩ : ∃ a : Nat, e₁ - e₂ - target = a := ⟨(e₁ - e₂ - target).toNat, by omega⟩
  rw [ha, Int.toNat_natCast]
  refine roundWithAccuracy_of_holds hm hdouble h₂ ?_ ?_
  · by_cases hleast : target ≤ -1074
    · exact .inr hleast
    · left
      have hbits : 53 + m₂.log2 ≤ m₁.log2 + a := by omega
      calc 2 ^ 52 * m₂ ≤ 2 ^ 52 * 2 ^ (m₂.log2 + 1) :=
            Nat.mul_le_mul_left _ (Nat.le_of_lt Nat.lt_log2_self)
        _ = 2 ^ (53 + m₂.log2) := by rw [← Nat.pow_add]; congr 1; omega
        _ ≤ 2 ^ (m₁.log2 + a) := Nat.pow_le_pow_right (by decide) hbits
        _ = 2 ^ m₁.log2 * 2 ^ a := Nat.pow_add _ _ _
        _ ≤ m₁ * 2 ^ a := Nat.mul_le_mul_right _ (Nat.log2_self_le (Nat.ne_of_gt h₁))
  · have hvalue : ((m₁ * 2 ^ a : Nat) : ℚ) / m₂ * 2 ^ target = (m₁ * 2 ^ e₁) / (m₂ * 2 ^ e₂) := by
      have hpow : (2 : ℚ) ^ e₁ = 2 ^ a * 2 ^ target * 2 ^ e₂ := by
        rw [← zpow_natCast, ← zpow_add₀ (by norm_num), ← zpow_add₀ (by norm_num)]
        congr 1
        omega
      rw [hpow]
      push_cast
      field_simp
    rwa [hvalue]

/-! ## Decimals -/

/-- A value in the interval of a positive double is at least half of the least double. -/
theorem Interval.Holds.le {v : ℚ} (h : (interval m e).Holds v) (hm : 0 < m)
    (hdouble : IsDouble m e) : 2 ^ (-1075 : ℤ) ≤ v := by
  have hmantissa : (2 : ℚ) ≤ (interval m e).low := by
    have hlow : 2 ≤ (interval m e).low := by
      by_cases hpower : m = 2 ^ 52 ∧ e ≠ -1074
      · rw [low_interval_of_power hpower]
        omega
      · rw [low_interval hpower]
        omega
    exact_mod_cast hlow
  have hleast := hdouble.least
  calc (2 : ℚ) ^ (-1075 : ℤ) = 2 * 2 ^ (-1076 : ℤ) := by
        rw [← zpow_one_add₀ (by norm_num)]
        norm_num
    _ ≤ (interval m e).low * 2 ^ (e - 2) :=
        mul_le_mul hmantissa (zpow_le_zpow_right₀ (by norm_num) (by omega)) (by positivity)
          (by positivity)
    _ ≤ v := h.low

/-- A value in the interval of a double is below the first power of two that is out of range. -/
theorem Interval.Holds.lt_range {v : ℚ} (h : (interval m e).Holds v) (hdouble : IsDouble m e) :
    v < 2 ^ (1024 : ℤ) := by
  have hgreatest := hdouble.greatest
  exact lt_of_lt_of_le (h.lt hdouble) (zpow_le_zpow_right₀ (by norm_num) (by omega))

/-- A decimal with a given number of digits lies between two powers of ten. -/
theorem decimal_bounds {d : Nat} (hd : 0 < d) (k : Int) :
    (10 : ℚ) ^ ((Nat.toDigits 10 d).length - 1 + k) ≤ d * 10 ^ k ∧
      (d : ℚ) * 10 ^ k < 10 ^ ((Nat.toDigits 10 d).length + k) := by
  have hlength : 0 < (Nat.toDigits 10 d).length := List.length_pos_iff.2 Nat.toDigits_ne_nil
  obtain ⟨l, hl⟩ : ∃ l, (Nat.toDigits 10 d).length = l + 1 :=
    ⟨(Nat.toDigits 10 d).length - 1, by omega⟩
  have hhigh : d < 10 ^ (l + 1) := by
    rw [← Nat.length_toDigits_le_iff (by decide) (Nat.succ_pos l), hl]
  have hlow : 10 ^ l ≤ d := by
    rcases Nat.eq_zero_or_pos l with rfl | hpos
    · exact hd
    · rw [← Nat.not_lt, ← Nat.length_toDigits_le_iff (by decide) hpos, hl]
      omega
  rw [hl]
  push_cast
  rw [add_sub_cancel_right, zpow_add₀ (by norm_num), zpow_add₀ (by norm_num)]
  exact ⟨mul_le_mul_of_nonneg_right (by exact_mod_cast hlow) (by positivity),
    mul_lt_mul_of_pos_right (by exact_mod_cast hhigh) (by positivity)⟩

/-- The power of ten below those of doubles is less than half the least double. -/
theorem least_power : (10 : ℚ) ^ (-324 : ℤ) < 2 ^ (-1075 : ℤ) := by
  rw [zpow_neg, zpow_neg, inv_lt_inv₀ (by positivity) (by positivity)]
  exact_mod_cast (by decide +kernel : 2 ^ 1075 < 10 ^ 324)

theorem greatest_power : (2 : ℚ) ^ (1024 : ℤ) < 10 ^ (309 : ℤ) := by
  exact_mod_cast (by decide +kernel : 2 ^ 1024 < 10 ^ 309)

/-- The decimals in the interval of a double are within the range that is computed. -/
theorem length_add_bounds {d : Nat} {k : Int} (hd : 0 < d) (hm : 0 < m) (hdouble : IsDouble m e)
    (h : (interval m e).Holds (d * 10 ^ k)) :
    -324 < (Nat.toDigits 10 d).length + k ∧ (Nat.toDigits 10 d).length + k ≤ 309 := by
  obtain ⟨hlow, hhigh⟩ := decimal_bounds hd k
  have hten : (1 : ℚ) < 10 := by norm_num
  constructor
  · have hpow := (least_power.trans_le (h.le hm hdouble)).trans hhigh
    exact (zpow_lt_zpow_iff_right₀ hten).1 hpow
  · have hpow := (hlow.trans_lt (h.lt_range hdouble)).trans greatest_power
    have := (zpow_lt_zpow_iff_right₀ hten).1 hpow
    omega

/-- A decimal in the interval of a double is read as the double. -/
theorem ofScientific_of_holds {d : Nat} {k : Int} (hd : 0 < d) (hm : 0 < m)
    (hdouble : IsDouble m e) (h : (interval m e).Holds (d * 10 ^ k)) :
    UnpackedFloat.ofScientific Format.binary64 d k = .finite .positive m e hm := by
  obtain ⟨hlow, hhigh⟩ := length_add_bounds hd hm hdouble h
  have hlength : (Nat.toDigits 10 d).length ≤ d.log2 + 1 := by
    rw [Nat.length_toDigits_le_iff (by decide) (Nat.succ_pos _)]
    exact Nat.lt_of_lt_of_le Nat.lt_log2_self (Nat.pow_le_pow_left (by decide) _)
  have hlarge : ¬k > 2 ^ Format.exponentBits Format.binary64 := by
    change ¬k > 2048
    omega
  have hsmall : ¬k < -((2 ^ Format.exponentBits Format.binary64 : Int) + d.log2) := by
    change ¬k < -(2048 + (d.log2 : Int))
    omega
  rw [UnpackedFloat.ofScientific, dif_neg (Nat.ne_of_gt hd), if_neg hlarge, if_neg hsmall]
  by_cases hk : 0 ≤ k
  · obtain ⟨j, rfl⟩ := Int.eq_ofNat_of_zero_le hk
    have hbits : Format.mantissaBits Format.binary64 = 53 := rfl
    rw [if_pos hk]
    simp only [hbits, Nat.shiftLeft_eq]
    refine mul_of_holds hm hdouble ?_ ?_
    · calc 2 ^ 52 ≤ 1 * 2 ^ 53 * 1 := by decide
        _ ≤ d * 2 ^ 53 * 10 ^ (j : Int).toNat :=
          Nat.mul_le_mul (Nat.mul_le_mul_right _ hd) (Nat.pow_pos (by decide))
    · have hvalue : ((d * 2 ^ 53 : Nat) : ℚ) * 2 ^ (-((53 : Nat) : Int)) *
          ((10 ^ (j : Int).toNat : Nat) * 2 ^ (0 : Int)) = d * 10 ^ (j : Int) := by
        rw [Int.toNat_natCast, zpow_neg, zpow_natCast, zpow_natCast, zpow_zero]
        push_cast
        field_simp
        norm_num
      rwa [hvalue]
  · obtain ⟨j, hj⟩ := Int.eq_ofNat_of_zero_le (by omega : 0 ≤ -k)
    have hvalue : (d : ℚ) * 2 ^ (0 : Int) / ((10 ^ (-k).toNat : Nat) * 2 ^ (0 : Int)) =
        d * 10 ^ k := by
      rw [hj, Int.toNat_natCast, ← neg_neg k, hj, zpow_neg, zpow_natCast, zpow_zero]
      push_cast
      field_simp
    rw [if_neg hk]
    exact div_of_holds hm hdouble (by rwa [hvalue])

/-! ## Small whole numbers -/

/-- A value that is a double is not rounded. -/
theorem roundWithAccuracy_exact (hm : 0 < m) (hlt : m < 2 ^ 53) (he : -1074 ≤ e) :
    roundWithAccuracy Format.binary64 s m e .exact = .finite s m e hm := by
  rw [roundWithAccuracy, shiftToTargetExponent_of_lt hlt he]
  have hrounded : (⟨m, false, false⟩ : ExtendedMantissa).roundedMantissa = m := rfl
  simp only [hrounded, shiftToTargetExponent_of_lt hlt he, Nat.ne_of_gt hm, dite_false]

/-- A small whole number is a double with as many bits as a mantissa has. -/
theorem ofNat_of_lt {d : Nat} (hd : 0 < d) (hlt : d < 2 ^ 53) :
    ∃ (j : Nat) (hm : 0 < d * 2 ^ j), IsDouble (d * 2 ^ j) (-(j : Int)) ∧ 2 ^ 52 ≤ d * 2 ^ j ∧
      UnpackedFloat.ofNat Format.binary64 d = .finite .positive (d * 2 ^ j) (-(j : Int)) hm := by
  have hlog : d.log2 ≤ 52 := Nat.lt_succ_iff.1 ((Nat.log2_lt (Nat.ne_of_gt hd)).2 hlt)
  obtain ⟨j, hj⟩ : ∃ j, 52 - d.log2 = j := ⟨_, rfl⟩
  have hlow : 2 ^ 52 ≤ d * 2 ^ j := by
    calc 2 ^ 52 = 2 ^ d.log2 * 2 ^ j := by rw [← Nat.pow_add]; congr 1; omega
      _ ≤ d * 2 ^ j := Nat.mul_le_mul_right _ (Nat.log2_self_le (Nat.ne_of_gt hd))
  have hhigh : d * 2 ^ j < 2 ^ 53 := by
    calc d * 2 ^ j < 2 ^ (d.log2 + 1) * 2 ^ j :=
          Nat.mul_lt_mul_of_pos_right Nat.lt_log2_self (Nat.two_pow_pos j)
      _ = 2 ^ 53 := by rw [← Nat.pow_add]; congr 1; omega
  have hm : 0 < d * 2 ^ j := Nat.mul_pos hd (Nat.two_pow_pos j)
  refine ⟨j, hm, ⟨hhigh, by omega, by omega, .inl hlow⟩, hlow, ?_⟩
  have hpositive : compare (d : Int) 0 = .gt := Int.compare_eq_gt.2 (by omega)
  have htarget : Format.binary64.targetExponent (totalExponent d 0) = -(j : Int) := by
    rw [targetExponent_eq, totalExponent]
    omega
  have hdecrease : decreaseExponent d 0 (-(j : Int)) = (d * 2 ^ j, -(j : Int)) := by
    rw [decreaseExponent, Int.zero_sub, Int.neg_neg, Int.toNat_natCast, Nat.shiftLeft_eq,
      Int.zero_sub]
  have hround : round Format.binary64 .positive d 0 =
      roundWithAccuracy Format.binary64 .positive (d * 2 ^ j) (-(j : Int)) .exact := by
    rw [UnpackedFloat.round, htarget, hdecrease]
  rw [UnpackedFloat.ofNat, UnpackedFloat.ofInt, UnpackedFloat.normalize, hpositive]
  exact hround.trans (roundWithAccuracy_exact hm hhigh (by omega))

/-- Whether a value is a power of ten with as many bits as a mantissa has. -/
def isPowerOfTen (j : Nat) : UnpackedFloat → Bool
  | .finite .positive p x _ => 2 ^ 52 ≤ p && p * 2 ^ x.toNat == 10 ^ j * 2 ^ (-x).toNat
  | _ => false

theorem isPowerOfTen_of_lt : ∀ j (h : j < Float.exactlyRepresentablePowersOfTen.size),
    isPowerOfTen j (Float.exactlyRepresentablePowersOfTen[j]).toModel.unpack = true := by
  decide +kernel

/-- A power is a quotient of powers that are not negative. -/
theorem zpow_eq_div {b : ℚ} (hb : b ≠ 0) (x : Int) : b ^ x = b ^ x.toNat / b ^ (-x).toNat := by
  rw [← zpow_natCast, ← zpow_natCast, ← zpow_sub₀ hb]
  congr 1
  omega

/-- A power of ten that is exact is a normal double. -/
theorem exists_of_isPowerOfTen {j : Nat} {f : UnpackedFloat} (h : isPowerOfTen j f = true) :
    ∃ (p : Nat) (x : Int) (hp : 0 < p), 2 ^ 52 ≤ p ∧ (p : ℚ) * 2 ^ x = 10 ^ j ∧
      f = .finite .positive p x hp := by
  unfold isPowerOfTen at h
  split at h
  · rename_i p x hp
    simp only [Bool.and_eq_true, decide_eq_true_eq, beq_iff_eq] at h
    refine ⟨p, x, hp, h.1, ?_, rfl⟩
    have hcast : (p : ℚ) * 2 ^ x.toNat = 10 ^ j * 2 ^ (-x).toNat := by exact_mod_cast h.2
    rw [zpow_eq_div (by norm_num), ← mul_div_assoc, hcast, mul_div_assoc, div_self (by positivity),
      mul_one]
  · simp at h

/-! ## Reading -/

/-- A number below 53 bits is a normal double. -/
theorem unpack_toFloat {d : Nat} (hd : 0 < d) (hlt : d < 2 ^ 53) :
    ∃ (j : Nat) (hm : 0 < d * 2 ^ j), 2 ^ 52 ≤ d * 2 ^ j ∧
      d.toUInt64.toFloat.toModel.unpack = .finite .positive (d * 2 ^ j) (-(j : Int)) hm := by
  obtain ⟨j, hm, hdouble, hlow, hfloat⟩ := ofNat_of_lt hd hlt
  have hnat : d.toUInt64.toNat = d := by
    rw [Nat.toUInt64_eq, UInt64.toNat_ofNat', Nat.mod_eq_of_lt (by omega)]
  refine ⟨j, hm, hlow, ?_⟩
  change (Float.Model.pack (UnpackedFloat.ofNat Format.binary64 d.toUInt64.toNat)).unpack = _
  rw [hnat, hfloat, unpack_pack .positive hm hdouble]

/-- A decimal in the interval of a positive double is read as the double, whichever way it is
computed. -/
theorem floatOfScientific_of_holds {d j : Nat} (negative : Bool) (hd : 0 < d) (hm : 0 < m)
    (hdouble : IsDouble m e)
    (h : (interval m e).Holds (d * 10 ^ (if negative then -(j : Int) else j))) :
    Float.ofScientific d negative j =
      Float.ofModel (Float.Model.pack (.finite .positive m e hm)) := by
  rw [Float.ofScientific]
  -- digits and a power of ten that are doubles need one operation, which rounds once
  by_cases hsmall : d < 2 ^ 53 ∧ j ≤ 22
  · obtain ⟨i, hi, hlow, hfloat⟩ := unpack_toFloat hd hsmall.1
    have hsize : j < Float.exactlyRepresentablePowersOfTen.size :=
      Nat.lt_of_le_of_lt hsmall.2 (by decide)
    obtain ⟨p, x, hp, hbits, hvalue, hpower⟩ := exists_of_isPowerOfTen (isPowerOfTen_of_lt j hsize)
    have hcast : ((d * 2 ^ i : Nat) : ℚ) * 2 ^ (-(i : Int)) = d := by
      rw [zpow_neg, zpow_natCast]
      push_cast
      field_simp
    rw [dif_pos hsmall]
    cases negative with
    | true =>
        have hquotient : (interval m e).Holds
            (((d * 2 ^ i : Nat) : ℚ) * 2 ^ (-(i : Int)) / (p * 2 ^ x)) := by
          rw [hcast, hvalue, ← zpow_natCast, div_eq_mul_inv, ← zpow_neg]
          exact h
        change Float.ofModel (Float.Model.pack (UnpackedFloat.div Format.binary64
          d.toUInt64.toFloat.toModel.unpack
            (Float.exactlyRepresentablePowersOfTen[j]).toModel.unpack)) = _
        rw [hfloat, hpower, div_of_holds hm hdouble hquotient]
        rfl
    | false =>
        have hproduct : (interval m e).Holds
            (((d * 2 ^ i : Nat) : ℚ) * 2 ^ (-(i : Int)) * (p * 2 ^ x)) := by
          rw [hcast, hvalue, ← zpow_natCast]
          exact h
        have henough : 2 ^ 52 ≤ d * 2 ^ i * p := Nat.le_trans hlow (Nat.le_mul_of_pos_right _ hp)
        change Float.ofModel (Float.Model.pack (UnpackedFloat.mul Format.binary64
          d.toUInt64.toFloat.toModel.unpack
            (Float.exactlyRepresentablePowersOfTen[j]).toModel.unpack)) = _
        rw [hfloat, hpower, mul_of_holds hm hdouble henough hproduct]
        rfl
  · rw [dif_neg hsmall]
    refine congrArg (fun f => Float.ofModel (Float.Model.pack f)) ?_
    cases negative with
    | true =>
        have hneg : Int.negOfNat j = -(j : Int) := rfl
        simp only [if_true, hneg]
        exact ofScientific_of_holds hd hm hdouble h
    | false => exact ofScientific_of_holds hd hm hdouble h

/-- A decimal in the interval of a positive double is read as the double. -/
theorem nearest_of_holds {d : Nat} {k : Int} (hd : 0 < d) (hm : 0 < m) (hdouble : IsDouble m e)
    (h : (interval m e).Holds (d * 10 ^ k)) :
    nearest d k = Float.ofModel (Float.Model.pack (.finite .positive m e hm)) := by
  obtain ⟨hlow, hhigh⟩ := length_add_bounds hd hm hdouble h
  rw [nearest, if_neg (Nat.ne_of_gt hd)]
  simp only
  rw [if_neg (by omega), if_neg (by omega)]
  by_cases hk : 0 ≤ k
  · have hnat : (k.toNat : Int) = k := Int.toNat_of_nonneg hk
    rw [if_pos hk]
    exact floatOfScientific_of_holds false hd hm hdouble (by simpa [hnat] using h)
  · have hnat : ((-k).toNat : Int) = -k := Int.toNat_of_nonneg (by omega)
    rw [if_neg hk]
    exact floatOfScientific_of_holds true hd hm hdouble (by simpa [hnat] using h)

/-- A numeral in the interval of a double, with its sign, is read as the double. -/
theorem toFloat_of_holds {x : Float} {n : Numeral} (hparts : parts x = .finite n.negative m e)
    (hm : 0 < m) (hn : 0 < n.significand)
    (h : (interval m e).Holds (n.significand * 10 ^ n.exponent)) : n.toFloat = x := by
  have hdouble := isDouble_of_parts hparts
  have hpack := pack_of_parts hparts hm
  rw [Numeral.toFloat, nearest_of_holds hn hm hdouble h]
  cases hsign : n.negative with
  | false =>
      rw [hsign] at hpack
      exact hpack
  | true =>
      rw [hsign] at hpack
      have hneg : (-(Float.ofModel (Float.Model.pack (.finite .positive m e hm)))) =
          Float.ofModel (Float.Model.pack
            (UnpackedFloat.neg (Float.Model.pack (.finite .positive m e hm)).unpack)) := rfl
      simp only [if_true]
      rw [hneg, unpack_pack .positive hm hdouble]
      exact hpack

/-- A small whole number is read as a finite double. -/
theorem isFinite_nearest {d : Nat} (h : d < 2 ^ 53) : (nearest d 0).isFinite = true := by
  rcases Nat.eq_zero_or_pos d with rfl | hd
  · decide +kernel
  · obtain ⟨j, hm, hdouble, -, -⟩ := ofNat_of_lt hd h
    have hvalue : (d : ℚ) * 10 ^ (0 : Int) = (d * 2 ^ j : Nat) * 2 ^ (-(j : Int)) := by
      rw [zpow_neg, zpow_natCast, zpow_zero]
      push_cast
      field_simp
    have hholds := holds_self hm (-(j : Int))
    rw [← hvalue] at hholds
    rw [nearest_of_holds hd hm hdouble hholds]
    exact isFinite_pack .positive hm hdouble

end Decimal
end Retrace
