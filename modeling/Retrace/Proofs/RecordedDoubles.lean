import Retrace.Proofs.PrintedDoubles

/-!
# Recorded doubles are told apart by their texts

The text that a double has in records is read back as the double, whether it is finite, infinite or
no number at all.  There is one double that is no number, so different doubles have different texts.
No text of a double holds a comma, which is what keeps it apart from what is written before it.

Main results:

- Theorem `readFloat_recorded`: the recorded text of a double is read as the double.
- Theorem `recorded_injective`: doubles with one text are one double.
- Theorem `comma_notMem_recorded`: the text of a double holds no comma.
-/

namespace Retrace
namespace Decimal

open Float.Model Float.Model.UnpackedFloat

/-! ## Doubles that are not finite -/

/-- An infinite double is one of the two infinities. -/
theorem infinite_of_parts {x : Float} {negative : Bool} (h : parts x = .infinite negative) :
    x = if negative then -(1 / 0) else 1 / 0 := by
  have hbits : x.toBits.toNat < 2 ^ 64 := x.toBits.toBitVec.isLt
  have hpositive : (1 / 0 : Float).toBits.toNat = 2047 * leastNormal := rfl
  have hnegative : (-(1 / 0) : Float).toBits.toNat = (2048 + 2047) * leastNormal := rfl
  unfold parts at h
  simp only at h
  rw [leastNormal_eq] at h hpositive hnegative
  apply eq_of_toBits
  split at h
  · rename_i hfield
    split at h
    · rename_i hfraction
      simp only [Parts.infinite.injEq] at h
      subst h
      split
      · rename_i hsign
        rw [decide_eq_true_eq] at hsign
        omega
      · rename_i hsign
        rw [decide_eq_true_eq] at hsign
        omega
    · simp at h
  · split at h <;> simp at h

/-- The fraction of a double is what its lowest 52 bits say. -/
theorem toNat_unpackMantissa (b : BitVec 64) :
    (@unpackMantissa Format.binary64 b).toNat = b.toNat % leastNormal := by
  simp only [unpackMantissa, BitVec.toNat_cast, BitVec.extractLsb_toNat, Nat.shiftRight_eq_div_pow]
  rw [pow_zero, Nat.div_one]
  rfl

/-- There is one double that is no number. -/
theorem nan_of_parts {x : Float} (h : parts x = .nan) : x = 0 / 0 := by
  have hnan : (0 / 0 : Float).toModel.toBits.toBitVec = packedNaN Format.binary64 := rfl
  have hfields : x.toBits.toNat / leastNormal % 2048 = 2047 ∧ x.toBits.toNat % leastNormal ≠ 0 := by
    unfold parts at h
    simp only at h
    split at h
    · rename_i hfield
      split at h
      · simp at h
      · rename_i hfraction
        exact ⟨hfield, hfraction⟩
    · split at h <;> simp at h
  have hvalid : x.toModel.toBits.toBitVec = packedNaN Format.binary64 := by
    apply x.toModel.valid.eq_packedNaN
    · apply BitVec.eq_of_toNat_eq
      rw [toNat_unpackExponent]
      exact hfields.1
    · intro hzero
      have hfraction := congrArg BitVec.toNat hzero
      rw [toNat_unpackMantissa] at hfraction
      exact hfields.2 hfraction
  exact eq_of_toBits (congrArg BitVec.toNat (hvalid.trans hnan.symm))

/-- A double with a mantissa and an exponent is finite. -/
theorem isFinite_of_parts {x : Float} {negative : Bool} {m : Nat} {e : Int}
    (h : parts x = .finite negative m e) : x.isFinite = true := by
  rcases Nat.eq_zero_or_pos m with rfl | hm
  · rw [zero_of_parts h]
    cases negative <;> rfl
  · rw [← pack_of_parts h hm]
    exact isFinite_pack _ hm (isDouble_of_parts h)

/-! ## Reading -/

theorem toLower_of_isDigit {c : Char} (h : c.isDigit = true) : c.toLower = c := by
  unfold Char.toLower
  rw [Char.isDigit, Bool.and_eq_true, decide_eq_true_eq, decide_eq_true_eq] at h
  rw [dif_neg]
  rintro ⟨hlow, -⟩
  have hletter := UInt32.le_iff_toNat_le.1 hlow
  have hdigit := UInt32.le_iff_toNat_le.1 h.2
  simp at hletter hdigit
  omega

/-- A numeral begins with a digit or a point. -/
theorem head_of_readNumeral {negative : Bool} {s : List Char} {n : Numeral}
    (h : readNumeral negative s = some n) :
    ∃ c rest, s = c :: rest ∧ (c.isDigit = true ∨ c = '.') := by
  cases s with
  | nil => simp [readNumeral] at h
  | cons c rest =>
      refine ⟨c, rest, rfl, ?_⟩
      by_contra hc
      rw [not_or, Bool.not_eq_true] at hc
      simp [readNumeral, hc.1, hc.2] at h

/-- A text with a numeral behind its sign is read as the numeral and not as a word. -/
theorem readFloat_of_readNumeral {s rest : List Char} {n : Numeral}
    (hsign : cutSign s = (n.negative, rest)) (hread : readNumeral n.negative rest = some n) :
    readFloat s = .ok n.toFloat := by
  obtain ⟨c, more, rfl, hc⟩ := head_of_readNumeral hread
  have hword : ∀ (d : Char) (word : List Char), d.isDigit = false → d ≠ '.' →
      (c :: more).map Char.toLower ≠ d :: word := by
    intro d word hdigit hpoint heq
    obtain rfl : c.toLower = d := (List.cons.inj heq).1
    rcases hc with hc | rfl
    · rw [toLower_of_isDigit hc, hc] at hdigit
      exact Bool.noConfusion hdigit
    · exact hpoint rfl
  have hne : s.isEmpty = false := by
    cases s with
    | nil => exact absurd (Prod.mk.inj hsign).2 (by simp)
    | cons d s => rfl
  rw [readFloat, hne, hsign]
  simp only [Bool.false_eq_true, if_false, hread]
  rw [if_neg, if_neg]
  · exact hword 'n' _ rfl (by decide)
  · rintro (h | h)
    · exact hword 'i' _ rfl (by decide) h
    · exact hword 'i' _ rfl (by decide) h

/-- The recorded text of a double is read as the double, be it finite or not. -/
theorem readFloat_recorded (x : Float) : readFloat (recorded.chars x) = .ok x := by
  cases hparts : parts x with
  | nan =>
      rw [nan_of_parts hparts]
      rfl
  | infinite negative =>
      rw [infinite_of_parts hparts]
      cases negative <;> rfl
  | finite negative m e =>
      obtain ⟨n, s, hsign, hread, hvalue⟩ := toFloat_chars recorded (isFinite_of_parts hparts)
      rw [readFloat_of_readNumeral hsign hread, hvalue]

/-- Doubles with one recorded text are one double. -/
theorem recorded_injective {x y : Float} (h : recorded.chars x = recorded.chars y) : x = y := by
  have hread := readFloat_recorded x
  rw [h, readFloat_recorded, Except.ok.injEq] at hread
  exact hread.symm

/-! ## Commas -/

theorem ne_comma_of_isDigit {c : Char} (h : c.isDigit = true) : c ≠ ',' := by
  rintro rfl
  exact absurd h (by decide)

/-- A number is written without commas. -/
theorem comma_notMem_natDigits (n : Nat) : ',' ∉ natDigits n :=
  fun h => ne_comma_of_isDigit (isDigit_of_mem_natDigits h) rfl

theorem comma_notMem_around (l : Layout) {digits : List Char} (hne : digits ≠ [])
    (hdigits : ',' ∉ digits) (exponent : Int) : ',' ∉ l.around digits exponent := by
  rcases l.around_cases hne exponent with ⟨n, -, htext⟩ | ⟨whole, fraction, -, -, rfl, -, htext⟩ |
    ⟨n, -, htext⟩
  · rw [htext]
    cases l.keepPoint <;> simp [hdigits, List.mem_replicate]
  · rw [htext]
    simpa using hdigits
  · rw [htext]
    simp [hdigits, List.mem_replicate]

theorem comma_notMem_withPower (l : Layout) {digits : List Char} (hdigits : ',' ∉ digits)
    (leading : Int) : ',' ∉ l.withPower digits leading := by
  have hfirst : ',' ∉ digits.take 1 := fun h => hdigits (List.mem_of_mem_take h)
  have hrest : ',' ∉ digits.drop 1 := fun h => hdigits (List.mem_of_mem_drop h)
  have hpower : ',' ∉ intDigits leading := by
    cases leading with
    | ofNat n => exact comma_notMem_natDigits n
    | negSucc n => simpa [intDigits] using comma_notMem_natDigits (n + 1)
  rw [Layout.withPower]
  simp only [List.mem_append, not_or]
  refine ⟨⟨⟨⟨hfirst, ?_⟩, by decide⟩, ?_⟩, hpower⟩
  · split
    · exact List.not_mem_nil
    · simpa using hrest
  · split <;> decide

/-- The recorded text of a double holds no comma. -/
theorem comma_notMem_recorded (x : Float) : ',' ∉ recorded.chars x := by
  rw [Layout.chars]
  split
  · decide
  · rename_i negative _
    cases negative <;> decide
  · rename_i negative m e _
    have hsign : ',' ∉ (if negative = true then ['-'] else []) := by
      cases negative <;> decide
    rw [List.mem_append, not_or]
    refine ⟨hsign, ?_⟩
    split
    · decide
    · have hdigits := comma_notMem_natDigits (shortest recorded.tie m e).significand
      rw [Layout.positive]
      split
      · exact comma_notMem_around recorded Nat.toDigits_ne_nil hdigits _
      · exact comma_notMem_withPower recorded hdigits _

end Decimal
end Retrace
