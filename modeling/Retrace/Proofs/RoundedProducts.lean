import Retrace.Proofs.DoubleArithmetic
import Retrace.Proofs.DoubleEquality

/-!
# A part of a whole number

A whole number is turned into the double nearest to it, which can be greater than the number itself
if it has more bits than a mantissa.  A double below one lacks a unit of its last place at least,
so that a product with it lies closer to the double right before, and that one is not greater than
the number.  What is cut off to a whole number is therefore never more than the number.

Main results:

- Theorem `exists_nearby`: the double of a whole number and the one right before it.
- Theorem `exists_stands_mul`: a whole number times a double below one does not exceed the number.
- Theorem `toNat_toUInt64`: a positive double is cut off to its whole part.
-/

namespace Retrace
namespace Decimal

open Float.Model Float.Model.UnpackedFloat

/-! ## Rounding -/

/-- Rounding does not fall below a whole number that is not above. -/
theorem le_roundHalfEven {n d c : Nat} (hd : 0 < d) (h : c * d ≤ n) : c ≤ roundHalfEven n d := by
  have hdiv : c ≤ n / d := (Nat.le_div_iff_mul_le hd).2 h
  unfold roundHalfEven
  dsimp only
  split <;> omega

/-- What lies below the middle between two numbers is not rounded beyond the first one. -/
theorem roundHalfEven_le {n d c : Nat} (hd : 0 < d) (h : 2 * n < (2 * c + 1) * d) :
    roundHalfEven n d ≤ c := by
  have hspec := (roundHalfEven_spec n d hd).1
  have hlt : roundHalfEven n d * (2 * d) < (c + 1) * (2 * d) := by
    calc roundHalfEven n d * (2 * d) = 2 * (roundHalfEven n d * d) := by ring
      _ ≤ 2 * n + d := hspec
      _ < (2 * c + 1) * d + d := Nat.add_lt_add_right h d
      _ = (c + 1) * (2 * d) := by ring
  exact Nat.lt_succ_iff.1 (Nat.lt_of_mul_lt_mul_right hlt)

theorem roundHalfEven_le_of_le {n d c : Nat} (hd : 0 < d) (h : n ≤ c * d) :
    roundHalfEven n d ≤ c := by
  refine roundHalfEven_le hd ?_
  rw [Nat.add_mul, Nat.mul_assoc]
  omega

/-- Shifting a mantissa divides it by a power of two. -/
theorem mantissa_shiftRight (m k : Nat) :
    (ExtendedMantissa.ofMantissaAndAccuracy m .exact >>> k).mantissa = m / 2 ^ k := by
  have hquotient : ExtendedMantissa.ofMantissaAndAccuracy m .exact = quotient m 1 := by
    rw [quotient, Nat.div_one, Nat.mod_one]
    rfl
  rw [hquotient, shiftRight_quotient m Nat.one_pos, Nat.one_mul, quotient_eq m (Nat.two_pow_pos k)]

/-- A finite positive double is cut off to its whole part. -/
theorem roundToInt_positive (m : Nat) (e : Int) :
    roundToInt .positive m e = ⌊(m : ℚ) * 2 ^ e⌋ := by
  have hexponent : (0 - (e - (e.toNat : Int))).toNat = (-e).toNat := by omega
  have hround : roundToInt .positive m e = (m * 2 ^ e.toNat / 2 ^ (-e).toNat : Nat) := by
    simp only [roundToInt, decreaseExponent, shiftToExponent, Int.sub_zero, hexponent,
      mantissa_shiftRight, Nat.shiftLeft_eq]
    rfl
  rw [hround, zpow_eq_div (by norm_num), ← mul_div_assoc]
  exact_mod_cast (Rat.floor_natCast_div_natCast _ _).symm

/-- Whether a double is positive and has a value. -/
def Stands (x : Float) (v : ℚ) : Prop :=
  ∃ (m : Nat) (e : Int) (hm : 0 < m), IsDouble m e ∧
    x = Float.ofModel (Float.Model.pack (.finite .positive m e hm)) ∧ v = m * 2 ^ e

/-- Some shift brings a mantissa to 53 bits or its exponent to the least one. -/
theorem exists_shift {q : Nat} (hq : 2 ^ 52 ≤ q) (e : Int) :
    ∃ k : Nat, q < 2 ^ 53 * 2 ^ k ∧ -1074 ≤ e + k ∧ (2 ^ 52 * 2 ^ k ≤ q ∨ e + k = -1074) := by
  have hne : q ≠ 0 := by omega
  have hlog : 52 ≤ q.log2 := (Nat.le_log2 hne).2 hq
  obtain ⟨k, hk⟩ : ∃ k, k = max (q.log2 - 52) (-1074 - e).toNat := ⟨_, rfl⟩
  refine ⟨k, ?_, by omega, ?_⟩
  · rw [← Nat.pow_add]
    exact Nat.lt_of_lt_of_le Nat.lt_log2_self (Nat.pow_le_pow_right (by decide) (by omega))
  · by_cases hbits : k = q.log2 - 52
    · left
      rw [← Nat.pow_add]
      exact Nat.le_trans (Nat.pow_le_pow_right (by decide) (by omega)) (Nat.log2_self_le hne)
    · right
      omega

/-- A number that is shifted to as many bits as a mantissa has, or to the least exponent, is rounded
there. -/
theorem stands_roundWithAccuracy {q k : Nat} {e : Int} (hhigh : q < 2 ^ 53 * 2 ^ k)
    (hleast : -1074 ≤ e + k) (hlow : 2 ^ 52 * 2 ^ k ≤ q ∨ e + k = -1074) (hpos : 2 ^ k ≤ q)
    (hgreatest : e + k ≤ 970) :
    Stands (Float.ofModel (Float.Model.pack
        (roundWithAccuracy Format.binary64 .positive q e .exact)))
      (roundHalfEven q (2 ^ k) * 2 ^ (e + k)) := by
  have hk : 0 < 2 ^ k := Nat.two_pow_pos k
  have htarget := @targetExponent_quotient q 1 e k Nat.one_pos (by rwa [Nat.one_mul]) hleast
    (by rwa [Nat.one_mul])
  have hround : ∀ c, roundHalfEven q (2 ^ k) = c → roundHalfEven q (1 * 2 ^ k) = c := by
    rw [Nat.one_mul]
    exact fun c h => h
  have hmost : roundHalfEven q (2 ^ k) ≤ 2 ^ 53 := roundHalfEven_le_of_le hk hhigh.le
  rcases Nat.lt_or_eq_of_le hmost with hlt | heq
  · have hr : 0 < roundHalfEven q (2 ^ k) := le_roundHalfEven hk (by rwa [Nat.one_mul])
    have hresult := @roundWithAccuracy_of_lt q 1 k e .positive _ Nat.one_pos hleast htarget
      (hround _ rfl) hr hlt
    rw [Nat.div_one, Nat.mod_one] at hresult
    have hdouble : IsDouble (roundHalfEven q (2 ^ k)) (e + k) := by
      refine ⟨hlt, hleast, by omega, hlow.imp_left fun hlow => ?_⟩
      exact le_roundHalfEven hk hlow
    exact ⟨_, _, hr, hdouble, congrArg (fun f => Float.ofModel (Float.Model.pack f)) hresult, rfl⟩
  · have hresult := @roundWithAccuracy_overflow q 1 k e .positive Nat.one_pos hleast htarget
      (hround _ heq)
    rw [Nat.div_one, Nat.mod_one] at hresult
    refine ⟨2 ^ 52, e + k + 1, by decide, ⟨by decide, by omega, by omega, .inl (by decide)⟩,
      congrArg (fun f => Float.ofModel (Float.Model.pack f)) hresult, ?_⟩
    rw [heq, zpow_add_one₀ (by norm_num)]
    push_cast
    ring

/-- A whole number of more bits than a mantissa has becomes the double that its bits are rounded
to. -/
theorem toFloat_eq_round {n : Nat} (hlarge : 2 ^ 53 ≤ n) :
    n.toFloat = Float.ofModel (Float.Model.pack
      (roundWithAccuracy Format.binary64 .positive (n * 2 ^ 53) (-53) .exact)) := by
  change Float.ofScientific n false 0 = _
  rw [Float.ofScientific, dif_neg (by omega)]
  refine congrArg (fun f => Float.ofModel (Float.Model.pack f)) ?_
  change UnpackedFloat.ofScientific Format.binary64 n 0 = _
  have hmagnitude : ¬(0 : Int) < -(2 ^ Format.binary64.exponentBits + (n.log2 : Int)) := by
    change ¬(0 : Int) < -(2048 + (n.log2 : Int))
    omega
  have hbits : Format.mantissaBits Format.binary64 = 53 := rfl
  rw [UnpackedFloat.ofScientific, dif_neg (by omega), if_neg (by decide), if_neg hmagnitude,
    if_pos (by decide)]
  simp only [hbits, Nat.shiftLeft_eq]
  change roundWithAccuracy Format.binary64 (.positive * .positive) (n * 2 ^ 53 * 1)
    (-53 + 0) .exact = _
  rw [Nat.mul_one]
  rfl

/-- Whether a whole number becomes a double with a mantissa of full length that is that of the
number or one more: neither the start of its binade nor the double right below it exceeds the
number. -/
structure Nearby (n c : Nat) (k : Int) : Prop where
  least : -52 ≤ k
  greatest : k ≤ 11
  full : 2 ^ 52 ≤ c
  most : c ≤ 2 ^ 53
  start_le : (2 : ℚ) ^ 52 * 2 ^ k ≤ n
  below_le : ((c : ℚ) - 1) * 2 ^ k ≤ n
  stands : Stands n.toFloat (c * 2 ^ k)

/-- A whole number that becomes a double is at least one. -/
theorem Nearby.one_le {n c : Nat} {k : Int} (h : Nearby n c k) : (1 : ℚ) ≤ c * 2 ^ k := by
  calc (1 : ℚ) = 2 ^ 52 * 2 ^ (-52 : Int) := by norm_num
    _ ≤ c * 2 ^ k := mul_le_mul (by exact_mod_cast h.full)
        (zpow_le_zpow_right₀ (by norm_num) h.least) (by positivity) (by positivity)

/-- A whole number that fits into a mantissa is a double itself. -/
theorem nearby_of_lt {n : Nat} (hn : 0 < n) (hsmall : n < 2 ^ 53) : ∃ c k, Nearby n c k := by
  obtain ⟨j, hm, hdouble, hlow, -⟩ := ofNat_of_lt hn hsmall
  have hj : 2 ^ j < 2 ^ 53 := Nat.lt_of_le_of_lt (Nat.le_mul_of_pos_left _ hn) hdouble.lt
  have hj' := (Nat.pow_lt_pow_iff_right (by decide)).1 hj
  have hvalue : (n : ℚ) = (n * 2 ^ j : Nat) * 2 ^ (-(j : Int)) := by
    rw [zpow_neg, zpow_natCast]
    push_cast
    field_simp
  have hpower : (0 : ℚ) < 2 ^ (-(j : Int)) := by positivity
  have hholds := holds_self hm (-(j : Int))
  rw [← hvalue] at hholds
  have hfloat := @floatOfScientific_of_holds _ _ n 0 false hn hm hdouble (by simpa using hholds)
  refine ⟨n * 2 ^ j, -(j : Int), by omega, by omega, hlow, hdouble.lt.le, ?_, ?_,
    _, _, hm, hdouble, hfloat, rfl⟩
  · rw [hvalue]
    exact mul_le_mul_of_nonneg_right (by exact_mod_cast hlow) hpower.le
  · conv_rhs => rw [hvalue]
    exact mul_le_mul_of_nonneg_right (sub_le_self _ zero_le_one) hpower.le

/-- A whole number of more bits is rounded to a mantissa. -/
theorem nearby_of_le {n : Nat} (hlarge : 2 ^ 53 ≤ n) (hlt : n < 2 ^ 64) : ∃ c k, Nearby n c k := by
  obtain ⟨k, hhigh, hleast, hlow⟩ := @exists_shift (n * 2 ^ 53) (by omega) (-53)
  replace hlow : 2 ^ 52 * 2 ^ k ≤ n * 2 ^ 53 := hlow.resolve_right (by omega)
  have hfirst : 54 ≤ k := (Nat.pow_lt_pow_iff_right (by decide)).1 (by omega : 2 ^ 53 < 2 ^ k)
  have hlast : k < 65 := (Nat.pow_lt_pow_iff_right (by decide)).1 (by omega : 2 ^ k < 2 ^ 65)
  have hpower : (2 : ℚ) ^ (-53 + (k : Int)) = 2 ^ k / 2 ^ 53 := by
    rw [zpow_add₀ (by norm_num), zpow_natCast, zpow_neg, div_eq_inv_mul]
    rfl
  have hstands := stands_roundWithAccuracy hhigh hleast (.inl hlow) (by omega) (by omega)
  rw [← toFloat_eq_round hlarge] at hstands
  refine ⟨_, -53 + k, by omega, by omega, le_roundHalfEven (Nat.two_pow_pos k) hlow,
    roundHalfEven_le_of_le (Nat.two_pow_pos k) hhigh.le, ?_, ?_, hstands⟩
  · rw [hpower, ← mul_div_assoc, div_le_iff₀ (by positivity)]
    exact_mod_cast hlow
  · have hspec := (roundHalfEven_spec (n * 2 ^ 53) (2 ^ k) (Nat.two_pow_pos k)).1
    rw [hpower, ← mul_div_assoc, div_le_iff₀ (by positivity)]
    have hcast : (2 : ℚ) * (roundHalfEven (n * 2 ^ 53) (2 ^ k) * 2 ^ k) ≤
        2 * (n * 2 ^ 53) + 2 ^ k := by
      exact_mod_cast hspec
    have hpos : (0 : ℚ) < 2 ^ k := by positivity
    linarith

/-- Every number of 64 bits has a double nearby. -/
theorem exists_nearby {n : Nat} (hn : 0 < n) (hlt : n < 2 ^ 64) : ∃ c k, Nearby n c k :=
  (Nat.lt_or_ge n (2 ^ 53)).elim (nearby_of_lt hn) fun hlarge => nearby_of_le hlarge hlt

/-- The parts of a finite double that is not zero are what it is unpacked into. -/
theorem parts_of_unpack {x : Float} {s : Sign} {m : Nat} {e : Int} {hm : 0 < m}
    (h : x.toModel.unpack = .finite s m e hm) :
    ∃ negative, s = signOf negative ∧ parts x = .finite negative m e := by
  have hfinite : x.isFinite = true := by
    change x.toModel.unpack.isFinite = true
    rw [h]
    rfl
  obtain ⟨negative, n, f, hparts⟩ := exists_parts_of_isFinite hfinite
  rcases Nat.eq_zero_or_pos n with rfl | hn
  · rw [zero_of_parts hparts] at h
    cases negative <;> cases h
  · have hpacked := unpack_pack (signOf negative) hn (isDouble_of_parts hparts)
    have hx := pack_of_parts hparts hn
    rw [← hx] at h
    obtain ⟨rfl, rfl, rfl⟩ := UnpackedFloat.finite.inj (h.symm.trans hpacked)
    exact ⟨negative, rfl, hparts⟩

/-- A double between zero and one is below one by a unit of the last place at least. -/
theorem exists_of_lt_one {p : Float} (hpos : 0 < p) (hlt : p < 1) :
    ∃ (m : Nat) (e : Int) (hm : 0 < m), IsDouble m e ∧ e ≤ -53 ∧
      p.toModel.unpack = .finite .positive m e hm := by
  have hpos' : (UnpackedFloat.zero .positive).lt p.toModel.unpack = true := of_decide_eq_true hpos
  have hlt' : p.toModel.unpack.lt (.finite .positive (2 ^ 52) (-52) (by decide)) = true :=
    of_decide_eq_true hlt
  cases hunpack : p.toModel.unpack with
  | finite s m e hm =>
      rw [hunpack] at hpos' hlt'
      obtain ⟨negative, -, hparts⟩ := parts_of_unpack hunpack
      have hdouble := isDouble_of_parts hparts
      cases s with
      | negative => simp [UnpackedFloat.lt, UnpackedFloat.compare] at hpos'
      | positive =>
          refine ⟨m, e, hm, hdouble, ?_, rfl⟩
          have hnormal := hdouble.normal
          rw [leastNormal_eq] at hnormal
          have horder : e < -52 ∨ e = -52 ∧ m < 2 ^ 52 := by
            simpa [UnpackedFloat.lt, UnpackedFloat.compare, Ordering.then_eq_lt,
              compare_lt_iff_lt] using hlt'
          omega
  | zero s | notANumber | infinity s =>
      rw [hunpack] at hpos' hlt'
      try cases s
      all_goals simp [UnpackedFloat.lt, UnpackedFloat.compare] at hpos' hlt'

/-- What a number with mantissa `c` becomes below one of its units is rounded to what lies below the
number: in a lower binade it stays there, and in the same one it is closer to the unit before. -/
theorem roundHalfEven_mul_le {n c q j : Nat} {k e : Int} {b : ℚ} (hleast : 2 ^ 52 ≤ c)
    (hlow : (2 : ℚ) ^ 52 * 2 ^ k ≤ n) (hbelow : ((c : ℚ) - 1) * 2 ^ k ≤ n)
    (hb : b ≤ 1 - 1 / 2 ^ 53) (hexact : (q : ℚ) * 2 ^ e = c * 2 ^ k * b)
    (hhigh : q < 2 ^ 53 * 2 ^ j) (hle : e + j ≤ k) :
    (roundHalfEven q (2 ^ j) : ℚ) * 2 ^ (e + j) ≤ n := by
  have hj : 0 < 2 ^ j := Nat.two_pow_pos j
  rcases lt_or_eq_of_le hle with hlt | heq
  · -- in a lower binade the product is rounded to the end of that binade at most
    have hmost : (roundHalfEven q (2 ^ j) : ℚ) ≤ 2 ^ 53 := by
      exact_mod_cast roundHalfEven_le_of_le hj hhigh.le
    calc (roundHalfEven q (2 ^ j) : ℚ) * 2 ^ (e + j) ≤ 2 ^ 53 * 2 ^ (k - 1) :=
          mul_le_mul hmost (zpow_le_zpow_right₀ (by norm_num) (by omega)) (by positivity)
            (by positivity)
      _ = 2 ^ 52 * 2 ^ k := by
          rw [zpow_sub_one₀ (by norm_num)]
          ring
      _ ≤ n := hlow
  · -- in the same binade the product is below the middle between the two numbers
    have hmost : roundHalfEven q (2 ^ j) ≤ max (2 ^ 52) (c - 1) := by
      refine roundHalfEven_le hj ?_
      have hscale : (2 : ℚ) ^ k = 2 ^ e * 2 ^ j := by
        rw [← heq, zpow_add₀ (by norm_num), zpow_natCast]
      have hvalue : (q : ℚ) = c * b * 2 ^ j := by
        have hunit : (2 : ℚ) ^ e ≠ 0 := by positivity
        refine mul_right_cancel₀ hunit ?_
        rw [hexact, hscale]
        ring
      have hmiddle : 2 * (c * b) < 2 * (max (2 ^ 52) (c - 1) : Nat) + 1 := by
        have hnonneg : (0 : ℚ) ≤ c := Nat.cast_nonneg c
        have hproduct := mul_le_mul_of_nonneg_left hb hnonneg
        rcases Nat.lt_or_eq_of_le hleast with hmore | hpower
        · have hpred : (c : ℚ) ≤ (max (2 ^ 52) (c - 1) : Nat) + 1 := by
            exact_mod_cast (by omega : c ≤ max (2 ^ 52) (c - 1) + 1)
          have hmore' : (2 : ℚ) ^ 52 < c := by exact_mod_cast hmore
          linarith
        · have hself : (c : ℚ) ≤ (max (2 ^ 52) (c - 1) : Nat) := by
            exact_mod_cast hpower.symm.le.trans (Nat.le_max_left (2 ^ 52) (c - 1))
          linarith
      have hpower : (0 : ℚ) < 2 ^ j := by positivity
      have hcast : (2 : ℚ) * q < (2 * (max (2 ^ 52) (c - 1) : Nat) + 1) * 2 ^ j := by
        rw [hvalue, ← mul_assoc]
        exact mul_lt_mul_of_pos_right hmiddle hpower
      exact_mod_cast hcast
    have hmax : ((max (2 ^ 52) (c - 1) : Nat) : ℚ) * 2 ^ k ≤ n := by
      rcases max_cases (2 ^ 52) (c - 1) with ⟨h, -⟩ | ⟨h, -⟩
      · rw [h]
        exact_mod_cast hlow
      · rw [h, Nat.cast_sub (by omega)]
        exact_mod_cast hbelow
    rw [heq]
    exact le_trans (mul_le_mul_of_nonneg_right (by exact_mod_cast hmost) (by positivity)) hmax

/-- The exponent at which a product with a factor below one is rounded does not exceed that of the
other factor, and something is left of the product there. -/
theorem shift_bounds {c q j : Nat} {k e : Int} {b : ℚ} (hmost : c ≤ 2 ^ 53) (hk : -1074 ≤ k)
    (hwhole : 1 ≤ (c : ℚ) * 2 ^ k) (hleast : 2 ^ (-1074 : Int) ≤ b) (hone : b < 1)
    (hexact : (q : ℚ) * 2 ^ e = c * 2 ^ k * b)
    (hlow : 2 ^ 52 * 2 ^ j ≤ q ∨ e + j = -1074) : e + j ≤ k ∧ 2 ^ j ≤ q := by
  have hscale : (2 : ℚ) ^ (e + j) = 2 ^ j * 2 ^ e := by
    rw [zpow_add₀ (by norm_num), zpow_natCast, mul_comm]
  have hunit : (0 : ℚ) < 2 ^ e := by positivity
  rcases hlow with hlow | hend
  · refine ⟨?_, by omega⟩
    have hcast : (2 : ℚ) ^ 52 * 2 ^ j ≤ q := by exact_mod_cast hlow
    have hlt : (2 : ℚ) ^ 52 * 2 ^ (e + j) < 2 ^ 53 * 2 ^ k := by
      calc (2 : ℚ) ^ 52 * 2 ^ (e + j) = (2 : ℚ) ^ 52 * 2 ^ j * 2 ^ e := by
            rw [hscale, mul_assoc]
        _ ≤ (q : ℚ) * 2 ^ e := mul_le_mul_of_nonneg_right hcast hunit.le
        _ = c * 2 ^ k * b := hexact
        _ < c * 2 ^ k * 1 := mul_lt_mul_of_pos_left hone (by linarith)
        _ ≤ 2 ^ 53 * 2 ^ k := by
            rw [mul_one]
            exact mul_le_mul_of_nonneg_right (by exact_mod_cast hmost) (by positivity)
    by_contra hgt
    have hmore : (2 : ℚ) ^ (k + 1) ≤ 2 ^ (e + j) := zpow_le_zpow_right₀ (by norm_num) (by omega)
    rw [zpow_add_one₀ (by norm_num)] at hmore
    linarith
  · refine ⟨by omega, ?_⟩
    have hscaled : (2 : ℚ) ^ j * 2 ^ e ≤ q * 2 ^ e := by
      calc (2 : ℚ) ^ j * 2 ^ e = 2 ^ (-1074 : Int) := by rw [← hscale, hend]
        _ ≤ 1 * b := by rwa [one_mul]
        _ ≤ c * 2 ^ k * b := mul_le_mul_of_nonneg_right hwhole (le_trans (by positivity) hleast)
        _ = q * 2 ^ e := hexact.symm
    exact_mod_cast le_of_mul_le_mul_right hscaled hunit

/-- A double of at least one has a mantissa of full length. -/
theorem IsDouble.le_of_one_le {m : Nat} {e : Int} (h : IsDouble m e) (hone : (1 : ℚ) ≤ m * 2 ^ e) :
    2 ^ 52 ≤ m := by
  refine h.normal.resolve_right fun hsubnormal => absurd hone (not_le.2 ?_)
  rw [hsubnormal]
  calc (m : ℚ) * 2 ^ (-1074 : Int) < 2 ^ 53 * 2 ^ (-53 : Int) :=
        mul_lt_mul (by exact_mod_cast h.lt) (zpow_le_zpow_right₀ (by norm_num) (by norm_num))
          (by positivity) (by positivity)
    _ = 1 := by norm_num

/-- No positive double is below the least one. -/
theorem IsDouble.least_le {m : Nat} {e : Int} (h : IsDouble m e) (hm : 0 < m) :
    (2 : ℚ) ^ (-1074 : Int) ≤ m * 2 ^ e := by
  rw [← one_mul ((2 : ℚ) ^ (-1074 : Int))]
  exact mul_le_mul (by exact_mod_cast hm) (zpow_le_zpow_right₀ (by norm_num) h.least)
    (by positivity) (by positivity)

/-- A double below one is below it by at least its last bit. -/
theorem IsDouble.le_one_sub {m : Nat} {e : Int} (h : IsDouble m e) (he : e ≤ -53) :
    (m : ℚ) * 2 ^ e ≤ 1 - 1 / 2 ^ 53 := by
  have hmost : (m : ℚ) + 1 ≤ 2 ^ 53 := by exact_mod_cast h.lt
  calc (m : ℚ) * 2 ^ e ≤ (2 ^ 53 - 1) * 2 ^ (-53 : Int) :=
        mul_le_mul (by linarith) (zpow_le_zpow_right₀ (by norm_num) he) (by positivity)
          (by norm_num)
    _ = 1 - 1 / 2 ^ 53 := by norm_num

/-- A whole number times a double below one is rounded to a value that does not exceed it. -/
theorem exists_stands_mul {n : Nat} (hn : 0 < n) (hlt : n < 2 ^ 64) {p : Float} (hpos : 0 < p)
    (hone : p < 1) : ∃ v, Stands (n.toFloat * p) v ∧ v ≤ n := by
  obtain ⟨c, k, hnearby⟩ := exists_nearby hn hlt
  obtain ⟨m₁, e₁, h₁, hdouble₁, hfloat, hvalue⟩ := hnearby.stands
  obtain ⟨m₂, e₂, h₂, hdouble₂, he₂, hunpack⟩ := exists_of_lt_one hpos hone
  have hproduct : n.toFloat * p = Float.ofModel (Float.Model.pack
      (roundWithAccuracy Format.binary64 .positive (m₁ * m₂) (e₁ + e₂) .exact)) := by
    change Float.ofModel (Float.Model.pack (UnpackedFloat.mul Format.binary64
      n.toFloat.toModel.unpack p.toModel.unpack)) = _
    rw [hfloat, unpack_pack .positive h₁ hdouble₁, hunpack]
    rfl
  have hnormal : 2 ^ 52 ≤ m₁ := hdouble₁.le_of_one_le (hvalue ▸ hnearby.one_le)
  have hfactor := hdouble₂.le_one_sub he₂
  have hexact : ((m₁ * m₂ : Nat) : ℚ) * 2 ^ (e₁ + e₂) = c * 2 ^ k * (m₂ * 2 ^ e₂) := by
    rw [zpow_add₀ (by norm_num), hvalue]
    push_cast
    ring
  obtain ⟨j, hhigh, hstart, henough⟩ :=
    exists_shift (Nat.le_trans hnormal (Nat.le_mul_of_pos_right _ h₂)) (e₁ + e₂)
  have hgreatest := hnearby.greatest
  have hleast : -1074 ≤ k := Int.le_trans (by decide) hnearby.least
  obtain ⟨hle, hbits⟩ := shift_bounds hnearby.most hleast hnearby.one_le (hdouble₂.least_le h₂)
    (by linarith) hexact henough
  exact ⟨_, hproduct ▸ stands_roundWithAccuracy hhigh hstart henough hbits (by omega),
    roundHalfEven_mul_le hnearby.full hnearby.start_le hnearby.below_le hfactor hexact hhigh hle⟩

/-! ## Whole parts -/

/-- A positive double in the range of words is cut off to the whole part of its value. -/
theorem toNat_toUInt64 {x : Float} {v : ℚ} (h : Stands x v) (hlt : v < 2 ^ 64) :
    (x.toUInt64.toNat : ℤ) = ⌊v⌋ := by
  obtain ⟨m, e, hm, hdouble, rfl, rfl⟩ := h
  have hfloor : 0 ≤ ⌊(m : ℚ) * 2 ^ e⌋ := Int.floor_nonneg.2 (by positivity)
  have hrange : ⌊(m : ℚ) * 2 ^ e⌋.toNat < UInt64.size := by
    have hbound := Int.floor_lt.2 (by exact_mod_cast hlt : (m : ℚ) * 2 ^ e < ((2 ^ 64 : ℤ) : ℚ))
    have hsize : UInt64.size = 2 ^ 64 := rfl
    omega
  have hword : (Float.ofModel (Float.Model.pack (.finite .positive m e hm))).toUInt64 =
      UInt64.ofNatClamp ⌊(m : ℚ) * 2 ^ e⌋.toNat := by
    change UInt64.ofNatClamp (UnpackedFloat.toInt 0 _
      (Float.Model.pack (.finite .positive m e hm)).unpack).toNat = _
    rw [unpack_pack .positive hm hdouble, UnpackedFloat.toInt, roundToInt_positive]
  rw [hword, UInt64.ofNatClamp, dif_pos hrange]
  exact Int.toNat_of_nonneg hfloor

end Decimal

namespace Double

open Decimal

/-- The number that a finite double stands for. -/
def value (x : Float) : ℚ :=
  match parts x with
  | .finite negative m e => (if negative then -(m : ℚ) else m) * 2 ^ e
  | _ => 0

/-- A double has the value that it stands for. -/
theorem value_of_stands {x : Float} {v : ℚ} (h : Stands x v) : value x = v := by
  obtain ⟨m, e, hm, hdouble, rfl, rfl⟩ := h
  obtain ⟨negative, hsign, hparts⟩ := parts_of_unpack (unpack_pack .positive hm hdouble)
  cases negative with
  | true => cases hsign
  | false =>
      have hparts' : parts (Float.ofModel (Float.Model.pack (.finite .positive m e hm))) =
          .finite false m e := hparts
      rw [value, hparts']
      rfl

/-- A double that stands for a value is finite. -/
theorem isFinite_of_stands {x : Float} {v : ℚ} (h : Stands x v) : x.isFinite = true := by
  obtain ⟨m, e, hm, hdouble, rfl, -⟩ := h
  exact isFinite_pack .positive hm hdouble

end Double
end Retrace
