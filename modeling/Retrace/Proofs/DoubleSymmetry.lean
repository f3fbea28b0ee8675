import Retrace.Proofs.DoubleEquality

/-!
# Doubles in either order

Rounding does not look at the order of two factors, and it treats a difference as it treats its
negative, apart from the sign.  The difference of two equal doubles is the positive zero in either
order; every other one changes its sign with the order, and the square does not see that.

Main results:

- Theorem `mul_comm`: a product does not depend on the order of its factors.
- Theorem `sub_square_comm`: the square of a difference does not depend on its order.
- Theorem `add_neg_zero`: adding negative zero changes nothing.
-/

namespace Retrace
namespace Double

open Float.Model Float.Model.UnpackedFloat

/-! ## Products -/

/-- Signs are multiplied in either order. -/
theorem sign_mul_comm (s t : Sign) : s * t = t * s := by
  cases s <;> cases t <;> rfl

/-- Two changed signs give the product of the signs. -/
theorem sign_neg_mul_neg (s : Sign) : -s * -s = s * s := by
  cases s <;> rfl

/-- Values are multiplied in either order. -/
theorem unpacked_mul_comm (u v : UnpackedFloat) :
    UnpackedFloat.mul Format.binary64 u v = UnpackedFloat.mul Format.binary64 v u := by
  rcases u with s | _ | s | ⟨s, m, e, hm⟩ <;> rcases v with t | _ | t | ⟨t, n, f, hn⟩ <;>
    simp only [UnpackedFloat.mul, sign_mul_comm, Nat.mul_comm, Int.add_comm]

/-- A product of unpacked doubles does not see the signs of both factors change. -/
theorem unpacked_neg_mul_neg (u : UnpackedFloat) :
    UnpackedFloat.mul Format.binary64 u.neg u.neg = UnpackedFloat.mul Format.binary64 u u := by
  rcases u with s | _ | s | ⟨s, m, e, hm⟩ <;>
    simp only [UnpackedFloat.mul, UnpackedFloat.neg, sign_neg_mul_neg]

/-- A product does not depend on the order of its factors. -/
theorem mul_comm (x y : Float) : x * y = y * x :=
  congrArg (fun u => Float.ofModel (Float.Model.pack u))
    (unpacked_mul_comm x.toModel.unpack y.toModel.unpack)

/-! ## Differences -/

theorem round_neg (s : Sign) (m : ℕ) (e : ℤ) :
    UnpackedFloat.round Format.binary64 (-s) m e =
      (UnpackedFloat.round Format.binary64 s m e).neg := by
  unfold UnpackedFloat.round roundWithAccuracy
  dsimp only
  split <;> rfl

/-- A number that is not zero is rounded to the negative of what its negative is rounded to. -/
theorem normalize_neg {m : ℤ} (hm : m ≠ 0) (e : ℤ) (zero : Sign) :
    UnpackedFloat.normalize Format.binary64 (-m) e zero =
      (UnpackedFloat.normalize Format.binary64 m e zero).neg := by
  unfold UnpackedFloat.normalize
  rcases Int.lt_or_gt_of_ne hm with hlt | hgt
  · have hneg : compare (-m) 0 = .gt := Int.compare_eq_gt.2 (by omega)
    rw [Int.compare_eq_lt.2 hlt, hneg]
    exact round_neg .negative _ e
  · have hneg : compare (-m) 0 = .lt := Int.compare_eq_lt.2 (by omega)
    rw [Int.compare_eq_gt.2 hgt, hneg]
    dsimp only
    rw [Int.neg_neg]
    exact round_neg .positive _ e

/-- A difference in the other order is the difference itself, as for equal doubles, or its
negative. -/
theorem unpacked_sub_comm (u v : UnpackedFloat) :
    UnpackedFloat.sub Format.binary64 v u = UnpackedFloat.sub Format.binary64 u v ∨
      UnpackedFloat.sub Format.binary64 v u = (UnpackedFloat.sub Format.binary64 u v).neg := by
  rcases u with s | _ | s | ⟨s, m, e, hm⟩ <;> rcases v with t | _ | t | ⟨t, n, f, hn⟩
  case finite.finite =>
    simp only [UnpackedFloat.sub]
    rw [Int.min_comm f e, ← Int.neg_sub]
    generalize s.apply _ - t.apply _ = difference
    by_cases hzero : difference = 0
    · rw [hzero]
      exact .inl rfl
    · exact .inr (normalize_neg hzero _ _)
  all_goals
    try cases s
    all_goals
      try cases t
      all_goals
        first | exact .inl rfl | exact .inr rfl

/-- What is packed keeps everything but its sign if the sign changes. -/
theorem unpack_packComponents_neg (s : Sign) (field : BitVec 11) (fraction : BitVec 52) :
    UnpackedFloat.unpack Format.binary64 (packComponents Format.binary64 (-s) field fraction) =
      (UnpackedFloat.unpack Format.binary64
        (packComponents Format.binary64 s field fraction)).neg := by
  unfold UnpackedFloat.unpack
  simp only [unpackMantissa_packComponents, unpackExponent_packComponents,
    Decimal.unpackSign_packComponents, Sign.ofBitVec_toBitVec]
  split
  · split <;> rfl
  · split
    · split <;> rfl
    · rfl

/-- The sign is changed before or after packing. -/
theorem unpack_pack_neg (u : UnpackedFloat) :
    UnpackedFloat.unpack Format.binary64 (UnpackedFloat.pack Format.binary64 u.neg) =
      (UnpackedFloat.unpack Format.binary64 (UnpackedFloat.pack Format.binary64 u)).neg := by
  rcases u with s | _ | s | ⟨s, m, e, hm⟩
  case notANumber =>
    change UnpackedFloat.unpack Format.binary64 (packedNaN Format.binary64) =
      (UnpackedFloat.unpack Format.binary64 (packedNaN Format.binary64)).neg
    rw [unpack_packedNaN]
    rfl
  case finite =>
    unfold UnpackedFloat.neg UnpackedFloat.pack
    dsimp only
    split
    · exact unpack_packComponents_neg s _ _
    · split <;> exact unpack_packComponents_neg s _ _
  all_goals exact unpack_packComponents_neg s _ _

/-- The square of a difference does not depend on its order. -/
theorem sub_square_comm (x y : Float) : (x - y) * (x - y) = (y - x) * (y - x) := by
  have hsquare : ∀ u v : UnpackedFloat, v = u ∨ v = u.neg →
      UnpackedFloat.mul Format.binary64 (Float.Model.pack v).unpack (Float.Model.pack v).unpack =
        UnpackedFloat.mul Format.binary64 (Float.Model.pack u).unpack
          (Float.Model.pack u).unpack := by
    rintro u v (rfl | rfl)
    · rfl
    · have hneg : (Float.Model.pack u.neg).unpack = (Float.Model.pack u).unpack.neg :=
        unpack_pack_neg u
      rw [hneg, unpacked_neg_mul_neg]
  exact congrArg (fun u => Float.ofModel (Float.Model.pack u))
    (hsquare _ _ (unpacked_sub_comm y.toModel.unpack x.toModel.unpack))

/-! ## Sums -/

/-- Adding negative zero changes nothing. -/
theorem add_neg_zero (x : Float) : x + -0 = x := by
  have hzero : (-0 : Float).toModel.unpack = .zero .negative := rfl
  have hsum : UnpackedFloat.add Format.binary64 x.toModel.unpack (.zero .negative) =
      x.toModel.unpack := by
    rcases x.toModel.unpack with s | _ | s | ⟨s, m, e, hm⟩
    case zero => cases s <;> rfl
    all_goals rfl
  change Float.ofModel (Float.Model.pack
    (UnpackedFloat.add Format.binary64 x.toModel.unpack (-0 : Float).toModel.unpack)) = x
  rw [hzero, hsum, pack_unpack]

end Double
end Retrace
