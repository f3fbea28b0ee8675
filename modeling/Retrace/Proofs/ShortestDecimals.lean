import Retrace.Proofs.DoubleArithmetic

/-!
# The shortest decimal reads back

The search for the shortest decimal of a double tries finer and finer grids.  The finest one has a
point in the interval of every double, so that the decimal that is found lies in the interval and is
read as the double.

Main results:

- Theorem `holds_shortest`: the decimal that is found rounds to the double.
- Theorem `holds_floorOnGrid`: a grid that is fine enough has a point in the interval.
-/

namespace Retrace
namespace Decimal

/-! ## Decimal and binary values -/

/-- Decimal and binary values are compared after multiplication by one factor. -/
theorem exists_denominator (k e : Int) :
    ∃ c : ℚ, 0 < c ∧ (∀ d : Nat, (scaledDecimal d k e : ℚ) = d * 10 ^ k * c) ∧
      ∀ n : Nat, (scaledBinary n e k : ℚ) = n * 2 ^ e * c := by
  refine ⟨10 ^ (-k).toNat * 2 ^ (-e).toNat, by positivity, fun d => ?_, fun n => ?_⟩
  · rw [zpow_eq_div (by norm_num) k, scaledDecimal, Nat.pow_eq, Nat.pow_eq]
    push_cast
    field_simp
  · rw [zpow_eq_div (by norm_num) e, scaledBinary, Nat.pow_eq, Nat.pow_eq]
    push_cast
    field_simp

/-- Scaled integers compare as the numbers that they stand for. -/
theorem scaled_lt_iff (d n : Nat) (k e : Int) :
    scaledDecimal d k e < scaledBinary n e k ↔ (d : ℚ) * 10 ^ k < n * 2 ^ e := by
  obtain ⟨c, hc, hdecimal, hbinary⟩ := exists_denominator k e
  rw [← @Nat.cast_lt ℚ, hdecimal, hbinary, mul_lt_mul_iff_left₀ hc]

theorem scaled_le_iff (d n : Nat) (k e : Int) :
    scaledDecimal d k e ≤ scaledBinary n e k ↔ (d : ℚ) * 10 ^ k ≤ n * 2 ^ e := by
  obtain ⟨c, hc, hdecimal, hbinary⟩ := exists_denominator k e
  rw [← @Nat.cast_le ℚ, hdecimal, hbinary, mul_le_mul_iff_left₀ hc]

/-- The comparison of a decimal with a binary value is that of the values. -/
theorem compareValues_spec (d n : Nat) (k e : Int) :
    (compareValues d k n e = .lt ↔ (d : ℚ) * 10 ^ k < n * 2 ^ e) ∧
      (compareValues d k n e = .eq ↔ (d : ℚ) * 10 ^ k = n * 2 ^ e) ∧
      (compareValues d k n e = .gt ↔ (n : ℚ) * 2 ^ e < d * 10 ^ k) := by
  have hlt := scaled_lt_iff d n k e
  have hle := scaled_le_iff d n k e
  rw [compareValues]
  refine ⟨Nat.compare_eq_lt.trans hlt, ?_, ?_⟩
  · rw [Nat.compare_eq_eq, Nat.eq_iff_le_and_ge, hle, le_antisymm_iff, ← Nat.not_lt, hlt, not_lt]
  · rw [Nat.compare_eq_gt, ← Nat.not_le, hle, not_le]

/-- What lies in an interval by comparison lies in it by value. -/
theorem Interval.contains_iff {i : Interval} (hi : i.low < i.high) {d : Nat} {k : Int} :
    i.contains d k = true ↔ i.Holds (d * 10 ^ k) := by
  obtain ⟨hllt, hleq, hlgt⟩ := compareValues_spec d i.low k i.exponent
  obtain ⟨hhlt, hheq, hhgt⟩ := compareValues_spec d i.high k i.exponent
  have hordered : (i.low : ℚ) * 2 ^ i.exponent < i.high * 2 ^ i.exponent :=
    mul_lt_mul_of_pos_right (by exact_mod_cast hi) (by positivity)
  rw [contains]
  cases hlow : compareValues d k i.low i.exponent with
  | lt =>
      have hbelow := hllt.1 hlow
      exact ⟨fun h => (Bool.false_ne_true h).elim, fun h => (not_le.2 hbelow h.low).elim⟩
  | eq =>
      have hend := hleq.1 hlow
      refine ⟨fun h => ⟨hend.ge, hend.trans_le hordered.le, fun hopen => ?_⟩, fun h => ?_⟩
      · exact (Bool.false_ne_true (hopen.symm.trans h)).elim
      · exact Bool.eq_true_of_not_eq_false fun hopen => (h.inner hopen).1.ne hend.symm
  | gt =>
      have habove := hlgt.1 hlow
      cases hhigh : compareValues d k i.high i.exponent with
      | lt =>
          have hbelow := hhlt.1 hhigh
          exact ⟨fun _ => ⟨habove.le, hbelow.le, fun _ => ⟨habove, hbelow⟩⟩, fun _ => rfl⟩
      | eq =>
          have hend := hheq.1 hhigh
          refine ⟨fun h => ⟨habove.le, hend.le, fun hopen => ?_⟩, fun h => ?_⟩
          · exact (Bool.false_ne_true (hopen.symm.trans h)).elim
          · exact Bool.eq_true_of_not_eq_false fun hopen => (h.inner hopen).2.ne hend
      | gt =>
          have hover := hhgt.1 hhigh
          exact ⟨fun h => (Bool.false_ne_true h).elim, fun h => (not_le.2 hover h.high).elim⟩

/-! ## Fine grids -/

/-- The floor on a grid is the last multiple that is not beyond the number. -/
theorem floorOnGrid_spec (n : Nat) (e k : Int) :
    (floorOnGrid n e k : ℚ) * 10 ^ k ≤ n * 2 ^ e ∧
      (n : ℚ) * 2 ^ e < (floorOnGrid n e k + 1 : Nat) * 10 ^ k := by
  constructor
  · rw [← scaled_le_iff, ← le_floorOnGrid_iff]
  · rw [← not_le, ← scaled_le_iff, ← le_floorOnGrid_iff]
    omega

/-- An interval has its lower end below its upper one. -/
theorem low_lt_high (m : Nat) (e : Int) : (interval m e).low < (interval m e).high :=
  Nat.lt_of_le_of_lt (Nat.sub_le _ _) (Nat.lt_add_of_pos_right (by decide))

/-- A grid whose step is at most a quarter of a unit has a point in the interval. -/
theorem holds_floorOnGrid {m : Nat} {e k : Int} (hm : 0 < m) (hgrid : (10 : ℚ) ^ k ≤ 2 ^ (e - 2)) :
    (interval m e).Holds (floorOnGrid (4 * m) (e - 2) k * 10 ^ k) := by
  obtain ⟨hfloor, hnext⟩ := floorOnGrid_spec (4 * m) (e - 2) k
  have hunit : (0 : ℚ) < 2 ^ (e - 2) := by positivity
  have hlow : ((interval m e).low : ℚ) + 1 ≤ (4 * m : Nat) := by
    exact_mod_cast low_lt_middle hm e
  have habove : ((interval m e).low : ℚ) * 2 ^ (e - 2) <
      floorOnGrid (4 * m) (e - 2) k * 10 ^ k := by
    have hstep := mul_le_mul_of_nonneg_right hlow hunit.le
    push_cast at hnext
    rw [add_mul, one_mul] at hnext hstep
    push_cast at hstep
    linarith
  have hbelow : (floorOnGrid (4 * m) (e - 2) k : ℚ) * 10 ^ k <
      (interval m e).high * 2 ^ (e - 2) := by
    refine lt_of_le_of_lt hfloor (mul_lt_mul_of_pos_right ?_ hunit)
    exact_mod_cast Nat.lt_add_of_pos_right (by decide : 0 < 2)
  exact ⟨habove.le, hbelow.le, fun _ => ⟨habove, hbelow⟩⟩

/-- The twentieth grid is fine enough for every exponent. -/
theorem fine_grids : ∀ i : Nat, i < 2098 →
    10 ^ (((i : Int) - 1074) * 1233 / 4096 - 17).toNat * 2 ^ (1128 - (i : Int)).toNat ≤
      2 ^ ((i : Int) - 1128).toNat * 10 ^ (-(((i : Int) - 1074) * 1233 / 4096 - 17)).toNat := by
  decide +kernel

/-- Nineteen digits make a grid that is finer than any interval. -/
theorem last_grid {m : Nat} {e : Int} (hm : 0 < m) (hdouble : IsDouble m e) :
    (10 : ℚ) ^ (leadingExponent m e - 19) ≤ 2 ^ (e - 2) := by
  obtain ⟨hlt, hleast, hgreatest, -⟩ := hdouble
  have hlog : m.log2 ≤ 52 := Nat.lt_succ_iff.1 ((Nat.log2_lt (Nat.ne_of_gt hm)).2 hlt)
  obtain ⟨i, hi⟩ := Int.eq_ofNat_of_zero_le (by omega : 0 ≤ m.log2 + e + 1074)
  have hgrid := fine_grids i (by omega)
  have hleading : leadingExponent m e - 19 = ((i : Int) - 1074) * 1233 / 4096 - 17 := by
    rw [leadingExponent, ← hi]
    omega
  have hpower : (2 : ℚ) ^ ((i : Int) - 1128) ≤ 2 ^ (e - 2) :=
    zpow_le_zpow_right₀ (by norm_num) (by omega)
  rw [hleading]
  refine le_trans ?_ hpower
  rw [zpow_eq_div (by norm_num), zpow_eq_div (by norm_num),
    div_le_div_iff₀ (by positivity) (by positivity), neg_sub]
  exact_mod_cast hgrid

/-! ## The search -/

/-- If the last grid has a point in the interval, what is found lies in the interval. -/
theorem Interval.contains_search {i : Interval} {tie : Tie} {count : Nat} {k : Int}
    (h : i.contains (floorOnGrid i.middle i.exponent (k - count)) (k - count) = true) :
    i.contains (i.search tie (count + 1) k).significand (i.search tie (count + 1) k).exponent =
      true := by
  induction count generalizing k with
  | zero =>
      rw [Int.natCast_zero, Int.sub_zero] at h
      rw [search]
      cases hgrid : i.onGrid tie k with
      | some d => exact onGrid_inside hgrid
      | none => exact absurd ((onGrid_none hgrid).1.symm.trans h) Bool.false_ne_true
  | succ count ih =>
      rw [search]
      cases hgrid : i.onGrid tie k with
      | some d => exact onGrid_inside hgrid
      | none =>
          have hlast : k - ((count + 1 : Nat) : Int) = k - 1 - count := by omega
          rw [hlast] at h
          exact ih h

/-- The decimal that is found rounds to the double. -/
theorem holds_shortest (tie : Tie) {m : Nat} {e : Int} (hm : 0 < m) (hdouble : IsDouble m e) :
    (interval m e).Holds
      ((shortest tie m e).significand * 10 ^ (shortest tie m e).exponent) := by
  rw [← Interval.contains_iff (low_lt_high m e)]
  refine Interval.contains_search ((Interval.contains_iff (low_lt_high m e)).2 ?_)
  exact holds_floorOnGrid hm (last_grid hm hdouble)

/-- The decimal that is found is not zero. -/
theorem significand_shortest_pos (tie : Tie) {m : Nat} {e : Int} (hm : 0 < m)
    (hdouble : IsDouble m e) : 0 < (shortest tie m e).significand := by
  have hpos := lt_of_lt_of_le (by positivity) ((holds_shortest tie hm hdouble).le hm hdouble)
  refine Nat.pos_of_ne_zero fun hzero => ?_
  rw [hzero, Nat.cast_zero, zero_mul] at hpos
  exact lt_irrefl _ hpos

/-- A numeral with the value of the decimal that is found is read as the double. -/
theorem toFloat_shortest (tie : Tie) {x : Float} {negative : Bool} {m : Nat} {e : Int}
    (hparts : parts x = .finite negative m e) (hm : 0 < m) (zeros : Nat) :
    Numeral.toFloat ⟨negative, (shortest tie m e).significand * 10 ^ zeros,
      (shortest tie m e).exponent - zeros⟩ = x := by
  have hdouble := isDouble_of_parts hparts
  refine toFloat_of_holds hparts hm
    (Nat.mul_pos (significand_shortest_pos tie hm hdouble) (Nat.pow_pos (by decide))) ?_
  have hvalue : (((shortest tie m e).significand * 10 ^ zeros : Nat) : ℚ) *
      10 ^ ((shortest tie m e).exponent - zeros) =
        (shortest tie m e).significand * 10 ^ (shortest tie m e).exponent := by
    rw [zpow_sub₀ (by norm_num), zpow_natCast]
    push_cast
    field_simp
  rw [hvalue]
  exact holds_shortest tie hm hdouble

end Decimal
end Retrace
