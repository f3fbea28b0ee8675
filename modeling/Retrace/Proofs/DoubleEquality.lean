import Retrace.Proofs.DoubleBits
import Retrace.Proofs.DoubleOrder

/-!
# The equality of doubles

Doubles are equal as numbers if they have one rank.  This is weaker than being the same double only
for the two zeros, and a double that is no number is equal to nothing.

Main results:

- Theorem `beq_iff_rank`: doubles are equal as numbers exactly if they have one rank.
- Theorem `eq_of_beq`: doubles that are equal as numbers are the same, negative zero apart.
-/

namespace Retrace
namespace Double

open Float.Model Float.Model.UnpackedFloat

/-- Finite doubles are equal as numbers exactly if all their parts are. -/
theorem finite_beq_iff (s t : Sign) {m n : ℕ} (e f : ℤ) (hm : 0 < m) (hn : 0 < n) :
    (UnpackedFloat.finite s m e hm).beq (.finite t n f hn) = true ↔ s = t ∧ e = f ∧ m = n := by
  cases s <;> cases t <;>
    simp [UnpackedFloat.beq, UnpackedFloat.compare, Ordering.swap_eq_eq, Ordering.then_eq_eq]

/-- Values are equal if they have one rank. -/
theorem unpacked_beq_iff (x y : UnpackedFloat) :
    x.beq y = true ↔ ∃ a, unpackedRank x = some a ∧ unpackedRank y = some a := by
  rcases x with s | _ | s | ⟨s, m, e, hm⟩ <;> rcases y with t | _ | t | ⟨t, n, f, hn⟩
  case infinity.infinity =>
    cases s <;> cases t <;>
      simp [UnpackedFloat.beq, UnpackedFloat.compare, unpackedRank] <;> rfl
  case finite.finite =>
    rw [finite_beq_iff]
    cases s <;> cases t <;> simp [unpackedRank, eq_comm]
  all_goals
    try cases s
    all_goals
      try cases t
      all_goals
        simp [UnpackedFloat.beq, UnpackedFloat.compare, unpackedRank]

/-- Doubles are equal as numbers exactly if they have one rank. -/
theorem beq_iff_rank (x y : Float) :
    (x == y) = true ↔ ∃ a, rank x = some a ∧ rank y = some a :=
  unpacked_beq_iff x.toModel.unpack y.toModel.unpack

theorem beq_symm {x y : Float} (h : (x == y) = true) : (y == x) = true := by
  obtain ⟨a, hx, hy⟩ := (beq_iff_rank x y).1 h
  exact (beq_iff_rank y x).2 ⟨a, hy, hx⟩

/-- Doubles that are equal to the same one are equal. -/
theorem beq_trans {x y z : Float} (hxy : (x == y) = true) (hyz : (y == z) = true) :
    (x == z) = true := by
  obtain ⟨a, hx, hy⟩ := (beq_iff_rank x y).1 hxy
  obtain ⟨b, hy', hz⟩ := (beq_iff_rank y z).1 hyz
  obtain rfl : a = b := Option.some.inj (hy.symm.trans hy')
  exact (beq_iff_rank x z).2 ⟨a, hx, hz⟩

/-- Unpacked doubles with one rank are the same unless both are zeros. -/
theorem unpacked_eq_of_rank {u v : UnpackedFloat} {a : ℤ ×ₗ ℤ ×ₗ ℤ} (hu : unpackedRank u = some a)
    (hv : unpackedRank v = some a) : u = v ∨ ∃ s t, u = .zero s ∧ v = .zero t := by
  rcases u with s | _ | s | ⟨s, m, e, hm⟩ <;> rcases v with t | _ | t | ⟨t, n, f, hn⟩
  case zero.zero => exact .inr ⟨s, t, rfl, rfl⟩
  all_goals
    try cases s
    all_goals
      try cases t
      all_goals
        simp_all [unpackedRank, ← hu]

/-- A double is what it is unpacked into, packed again. -/
theorem pack_unpack (x : Float) : Float.ofModel (Float.Model.pack x.toModel.unpack) = x := by
  apply Decimal.eq_of_toBits
  exact congrArg BitVec.toNat (pack_unpack_of_valid x.toModel.valid)

/-- Doubles that are equal as numbers are the same, negative zero apart. -/
theorem eq_of_beq {x y : Float} (h : (x == y) = true) (hx : x ≠ -0) (hy : y ≠ -0) : x = y := by
  obtain ⟨a, hxa, hya⟩ := (beq_iff_rank x y).1 h
  have hnegative : Float.ofModel (Float.Model.pack (.zero .negative)) = -0 := by decide +kernel
  rw [← pack_unpack x, ← pack_unpack y]
  rcases unpacked_eq_of_rank hxa hya with hsame | ⟨s, t, hs, ht⟩
  · rw [hsame]
  · rw [← pack_unpack x, hs] at hx
    rw [← pack_unpack y, ht] at hy
    rw [hs, ht]
    cases s with
    | negative => exact absurd hnegative hx
    | positive =>
        cases t with
        | negative => exact absurd hnegative hy
        | positive => rfl

end Double
end Retrace
