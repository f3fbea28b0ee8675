import Mathlib
import Retrace.Decimal.Exact

/-!
# The bits of a double

A finite double is given by its sign, its mantissa and its exponent: the bits that these are packed
into are its bits, and they are unpacked from them.

Main results:

- Theorem `isDouble_of_parts`: the mantissa and the exponent of a double are within their bounds.
- Theorem `pack_of_parts`: a double is what its sign, its mantissa and its exponent are packed into.
- Theorem `unpack_pack`: a mantissa and an exponent that are packed are unpacked.
-/

namespace Retrace
namespace Decimal

open Float.Model Float.Model.UnpackedFloat

/-- Whether a mantissa and an exponent are those of a finite double. -/
structure IsDouble (m : Nat) (e : Int) : Prop where
  lt : m < 2 ^ 53
  least : -1074 ≤ e
  greatest : e ≤ 971
  normal : leastNormal ≤ m ∨ e = -1074

/-- The least normal mantissa is the power of two that the 52 bits cannot hold. -/
theorem leastNormal_eq : leastNormal = 2 ^ 52 := rfl

/-- The sign of a double. -/
def signOf (negative : Bool) : Sign :=
  if negative then .negative else .positive

/-! ## Packing -/

/-- The bits of a double are its sign, its exponent and its fraction in a row. -/
theorem toNat_packComponents (s : Sign) (field : BitVec 11) (fraction : BitVec 52) :
    (packComponents Format.binary64 s field fraction).toNat =
      (s.toBitVec.toNat * 2 ^ 11 + field.toNat) * 2 ^ 52 + fraction.toNat := by
  have happend : ∀ {v w : Nat} (x : BitVec v) (y : BitVec w),
      (x ++ y).toNat = x.toNat * 2 ^ w + y.toNat := fun x y => by
    rw [BitVec.toNat_append, ← Nat.shiftLeft_add_eq_or_of_lt y.isLt, Nat.shiftLeft_eq]
  rw [packComponents, happend, happend]

theorem log2_normal {m : Nat} (hlow : 2 ^ 52 ≤ m) (hlt : m < 2 ^ 53) : m.log2 = 52 :=
  (Nat.log2_eq_iff (by omega)).2 ⟨hlow, hlt⟩

/-- The bits that a normal mantissa and an exponent are packed into; the leading bit of the mantissa
is left out. -/
theorem pack_normal (s : Sign) {m : Nat} {e : Int} (hm : 0 < m) (hdouble : IsDouble m e)
    (hnormal : leastNormal ≤ m) :
    UnpackedFloat.pack Format.binary64 (.finite s m e hm) =
      packComponents Format.binary64 s (BitVec.ofNat 11 (e + 1075).toNat) (BitVec.ofNat 52 m) := by
  obtain ⟨hlt, hleast, hgreatest, -⟩ := hdouble
  have hbias : (e + ((1023 : Nat) : Int) + ((52 : Nat) : Int)).toNat = (e + 1075).toNat := by omega
  have hrange : ¬2 ^ 11 ≤ (e + 1075).toNat + 1 := by omega
  have hlog : m.log2 + 1 = 53 := congrArg (· + 1) (log2_normal hnormal hlt)
  rw [UnpackedFloat.pack]
  change (if 2 ^ 11 ≤ (e + ((1023 : Nat) : Int) + ((52 : Nat) : Int)).toNat + 1 then _
    else if m.log2 + 1 = 53 then _ else _) = _
  rw [hbias, if_neg hrange, if_pos hlog]
  exact congrArg (fun field => packComponents Format.binary64 s (BitVec.ofNat 11 field) _) hbias

/-- The bits that a mantissa below the normal ones is packed into. -/
theorem pack_subnormal (s : Sign) {m : Nat} (hm : 0 < m) (hsubnormal : m < leastNormal) :
    UnpackedFloat.pack Format.binary64 (.finite s m (-1074) hm) =
      packComponents Format.binary64 s 0 (BitVec.ofNat 52 m) := by
  have hrange : ¬2 ^ 11 ≤ (-1074 + ((1023 : Nat) : Int) + ((52 : Nat) : Int)).toNat + 1 := by decide
  have hlog : ¬m.log2 + 1 = 53 := by
    have := (Nat.log2_lt (Nat.ne_of_gt hm)).2 (leastNormal_eq ▸ hsubnormal)
    omega
  rw [UnpackedFloat.pack]
  change (if 2 ^ 11 ≤ (-1074 + ((1023 : Nat) : Int) + ((52 : Nat) : Int)).toNat + 1 then _
    else if m.log2 + 1 = 53 then _ else _) = _
  rw [if_neg hrange, if_neg hlog]
  rfl

/-! ## Unpacking -/

theorem unpackSign_packComponents (s : Sign) (field : BitVec 11) (fraction : BitVec 52) :
    unpackSign (packComponents Format.binary64 s field fraction) = s.toBitVec := by
  apply BitVec.eq_of_getLsbD_eq
  intro i hi
  obtain rfl : i = 0 := by omega
  have htop : (s.toBitVec ++ field ++ fraction).getLsbD 63 = s.toBitVec.getLsbD 0 := by
    rw [BitVec.getLsbD_append, BitVec.getLsbD_append]
    rfl
  simp only [unpackSign, packComponents, BitVec.getLsbD_cast, BitVec.getLsbD_extractLsb]
  exact htop

theorem ofBitVec_toBitVec (s : Sign) : Sign.ofBitVec s.toBitVec = s := by
  cases s <;> rfl

/-- A mantissa and an exponent that are packed are unpacked. -/
theorem unpack_pack (s : Sign) {m : Nat} {e : Int} (hm : 0 < m) (hdouble : IsDouble m e) :
    (Float.Model.pack (.finite s m e hm)).unpack = .finite s m e hm := by
  change UnpackedFloat.unpack Format.binary64 (UnpackedFloat.pack Format.binary64 _) = _
  obtain ⟨hlt, hleast, hgreatest, hnormal⟩ := id hdouble
  by_cases hleading : leastNormal ≤ m
  · rw [pack_normal s hm hdouble hleading, UnpackedFloat.unpack]
    rw [leastNormal_eq] at hleading
    have hfield : (BitVec.ofNat 11 (e + 1075).toNat).toNat = (e + 1075).toNat := by
      rw [BitVec.toNat_ofNat, Nat.mod_eq_of_lt (by omega)]
    have hinfinite : BitVec.ofNat 11 (e + 1075).toNat ≠ -1#11 := fun h => by
      have := congrArg BitVec.toNat h
      rw [hfield] at this
      change _ = 2047 at this
      omega
    have hzero : BitVec.ofNat 11 (e + 1075).toNat ≠ 0#11 := fun h => by
      have := congrArg BitVec.toNat h
      rw [hfield] at this
      change _ = 0 at this
      omega
    have hmantissa : (1#1 ++ BitVec.ofNat 52 m).toNat = m := by
      rw [BitVec.toNat_append, ← Nat.shiftLeft_add_eq_or_of_lt (BitVec.isLt _), Nat.shiftLeft_eq,
        BitVec.toNat_ofNat, BitVec.toNat_ofNat]
      omega
    simp only [unpackMantissa_packComponents, unpackExponent_packComponents,
      unpackSign_packComponents, ofBitVec_toBitVec, hinfinite, hzero, if_false, hfield, hmantissa]
    have hexponent :
        ((e + 1075).toNat : Int) - (((1023 : Nat) : Int) + ((52 : Nat) : Int)) = e := by
      omega
    exact congrArg (fun e => UnpackedFloat.finite s m e hm) hexponent
  · obtain rfl : e = -1074 := hnormal.resolve_left hleading
    rw [pack_subnormal s hm (Nat.not_le.1 hleading), UnpackedFloat.unpack]
    rw [leastNormal_eq] at hleading
    have hmantissa : (BitVec.ofNat 52 m).toNat = m := by
      rw [BitVec.toNat_ofNat, Nat.mod_eq_of_lt (by omega)]
    have hne : BitVec.ofNat 52 m ≠ 0#52 := fun h => by
      have := congrArg BitVec.toNat h
      rw [hmantissa] at this
      change _ = 0 at this
      omega
    have hinfinite : (0 : BitVec 11) ≠ -1#11 := by decide
    simp only [unpackMantissa_packComponents, unpackExponent_packComponents,
      unpackSign_packComponents, ofBitVec_toBitVec, hinfinite, hne, if_false, dite_false, hmantissa]
    rfl

/-! ## The parts of a double -/

/-- The parts of a finite double are those of its bits. -/
theorem parts_eq_finite {x : Float} {negative : Bool} {m : Nat} {e : Int}
    (h : parts x = .finite negative m e) :
    ∃ field fraction : Nat, field < 2047 ∧ fraction < 2 ^ 52 ∧
      x.toBits.toNat = ((signOf negative).toBitVec.toNat * 2 ^ 11 + field) * 2 ^ 52 + fraction ∧
      (field = 0 ∧ m = fraction ∧ e = -1074 ∨
        0 < field ∧ m = 2 ^ 52 + fraction ∧ e = field - 1075) := by
  have hbits : x.toBits.toNat < 2 ^ 64 := x.toBits.toBitVec.isLt
  refine ⟨x.toBits.toNat / leastNormal % 2048, x.toBits.toNat % leastNormal, ?_⟩
  have hsign : (signOf (decide (2048 * leastNormal ≤ x.toBits.toNat))).toBitVec.toNat =
      x.toBits.toNat / 2 ^ 63 := by
    by_cases hnegative : 2048 * leastNormal ≤ x.toBits.toNat
    · rw [decide_eq_true hnegative]
      rw [leastNormal_eq] at hnegative
      change 1 = _
      omega
    · rw [decide_eq_false hnegative]
      rw [leastNormal_eq] at hnegative
      change 0 = _
      omega
  unfold parts at h
  simp only at h
  split at h
  · split at h <;> simp at h
  · rename_i hfinite
    split at h
    · rename_i hzero
      obtain ⟨rfl, rfl, rfl⟩ := Parts.finite.inj h
      rw [hsign]
      rw [leastNormal_eq] at hfinite hzero ⊢
      omega
    · rename_i hnormal
      obtain ⟨rfl, rfl, rfl⟩ := Parts.finite.inj h
      rw [hsign]
      rw [leastNormal_eq] at hfinite hnormal ⊢
      omega

/-- The mantissa and the exponent of a finite double are within their bounds. -/
theorem isDouble_of_parts {x : Float} {negative : Bool} {m : Nat} {e : Int}
    (h : parts x = .finite negative m e) : IsDouble m e := by
  obtain ⟨field, fraction, hfield, hfraction, -, hcases⟩ := parts_eq_finite h
  rcases hcases with ⟨-, rfl, rfl⟩ | ⟨hpos, rfl, rfl⟩
  · exact ⟨by omega, by omega, by omega, .inr rfl⟩
  · exact ⟨by omega, by omega, by omega, .inl (by rw [leastNormal_eq]; omega)⟩

/-- Doubles with the same bits are the same. -/
theorem eq_of_toBits {x y : Float} (h : x.toBits.toNat = y.toBits.toNat) : x = y := by
  obtain ⟨⟨bits, hvalid⟩⟩ := x
  obtain ⟨⟨bits', hvalid'⟩⟩ := y
  obtain rfl : bits = bits' := UInt64.toNat_inj.1 h
  rfl

/-- A double is what its sign, its mantissa and its exponent are packed into. -/
theorem pack_of_parts {x : Float} {negative : Bool} {m : Nat} {e : Int}
    (h : parts x = .finite negative m e) (hm : 0 < m) :
    Float.ofModel (Float.Model.pack (.finite (signOf negative) m e hm)) = x := by
  refine eq_of_toBits ?_
  change (UnpackedFloat.pack Format.binary64 (.finite (signOf negative) m e hm)).toNat =
    x.toBits.toNat
  have hdouble := isDouble_of_parts h
  obtain ⟨field, fraction, hfield, hfraction, hbits, hcases⟩ := parts_eq_finite h
  rcases hcases with ⟨rfl, rfl, rfl⟩ | ⟨hpos, rfl, rfl⟩
  · rw [pack_subnormal _ hm (leastNormal_eq ▸ hfraction), toNat_packComponents, BitVec.toNat_ofNat,
      Nat.mod_eq_of_lt hfraction, hbits]
    rfl
  · have hexponent : (field - 1075 + 1075 : Int).toNat = field := by omega
    rw [pack_normal _ hm hdouble (leastNormal_eq ▸ Nat.le_add_right _ _), toNat_packComponents,
      BitVec.toNat_ofNat, BitVec.toNat_ofNat, hexponent, Nat.add_mod_left,
      Nat.mod_eq_of_lt hfraction, Nat.mod_eq_of_lt (by omega : field < 2 ^ 11), hbits]

/-- A zero is one of the two zeros. -/
theorem zero_of_parts {x : Float} {negative : Bool} {e : Int}
    (h : parts x = .finite negative 0 e) : x = if negative then -0 else 0 := by
  obtain ⟨field, fraction, -, -, hbits, hcases⟩ := parts_eq_finite h
  obtain ⟨rfl, rfl⟩ : field = 0 ∧ fraction = 0 := by omega
  refine eq_of_toBits (hbits.trans ?_)
  cases negative <;> decide +kernel

/-! ## Finite doubles -/

/-- The exponent of a double is what eleven bits behind its sign say. -/
theorem toNat_unpackExponent (b : BitVec 64) :
    (@unpackExponent Format.binary64 b).toNat = b.toNat / leastNormal % 2048 := by
  simp only [unpackExponent, BitVec.toNat_cast, BitVec.extractLsb_toNat, Nat.shiftRight_eq_div_pow]
  rfl

/-- A finite double is a mantissa with an exponent. -/
theorem exists_parts_of_isFinite {x : Float} (h : x.isFinite = true) :
    ∃ negative m e, parts x = .finite negative m e := by
  unfold parts
  by_cases hfield : x.toBits.toNat / leastNormal % 2048 = 2047
  · exfalso
    have hexponent : @unpackExponent Format.binary64 x.toModel.toBits.toBitVec = -1#11 := by
      apply BitVec.eq_of_toNat_eq
      rw [toNat_unpackExponent]
      exact hfield
    have hunpack : x.toModel.unpack.isFinite = true := h
    simp only [Float.Model.unpack, UnpackedFloat.unpack, if_pos hexponent] at hunpack
    split at hunpack <;> exact Bool.false_ne_true hunpack
  · simp only [hfield, if_false]
    split
    · exact ⟨_, _, _, rfl⟩
    · exact ⟨_, _, _, rfl⟩

/-- A double that is packed from a finite value is finite. -/
theorem isFinite_pack (s : Sign) {m : Nat} {e : Int} (hm : 0 < m) (hdouble : IsDouble m e) :
    (Float.ofModel (Float.Model.pack (.finite s m e hm))).isFinite = true := by
  change (Float.Model.pack (.finite s m e hm)).unpack.isFinite = true
  rw [unpack_pack s hm hdouble]
  rfl

end Decimal
end Retrace
