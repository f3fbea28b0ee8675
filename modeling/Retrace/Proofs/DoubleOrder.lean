import Mathlib
import Retrace.Scalar

/-!
# The order of doubles

Every double that is a number has a rank, and doubles are compared by their ranks: first by sign and
size, then by exponent, then by mantissa.  Both zeros have one rank, and a double that is no number
has none, so nothing is below it or above it.  Picking the lesser or the greater of two doubles over
and over, with what is no number giving way, ends with an extreme of all that are numbers.

Main results:

- Theorem `le_iff_rank`: doubles are compared by their ranks.
- Theorem `extreme_foldl_pick`: what is picked from a list is an extreme of it.
- Theorems `least_foldl_smaller` and `greatest_foldl_larger`: the lesser and the greater of two.
-/

namespace Retrace
namespace Double

open Float.Model Float.Model.UnpackedFloat

/-! ## Ranks -/

/-- The rank of an unpacked double; what is no number has none. -/
def unpackedRank : UnpackedFloat → Option (ℤ ×ₗ ℤ ×ₗ ℤ)
  | .notANumber => none
  | .infinity .negative => some (toLex (-2, toLex (0, 0)))
  | .finite .negative m e _ => some (toLex (-1, toLex (-e, -m)))
  | .zero _ => some (toLex (0, toLex (0, 0)))
  | .finite .positive m e _ => some (toLex (1, toLex (e, m)))
  | .infinity .positive => some (toLex (2, toLex (0, 0)))

/-- The rank of a double. -/
def rank (x : Float) : Option (ℤ ×ₗ ℤ ×ₗ ℤ) :=
  unpackedRank x.toModel.unpack

/-- Exponents are compared before mantissas. -/
theorem isLE_compare_then (e e' : ℤ) (m m' : ℕ) :
    ((compare e e').then (compare m m')).isLE = true ↔
      toLex (e, (m : ℤ)) ≤ toLex (e', (m' : ℤ)) := by
  rw [Prod.Lex.toLex_le_toLex]
  rcases lt_trichotomy e e' with h | rfl | h
  · simp [compare_lt_iff_lt.2 h, h]
  · simp [Nat.isLE_compare]
  · simp [compare_gt_iff_gt.2 h, h.ne', h.not_gt]

/-- Two finite doubles are compared by their ranks. -/
theorem finite_le_iff (s t : Sign) {m n : ℕ} (e f : ℤ) (hm : 0 < m) (hn : 0 < n) :
    (UnpackedFloat.finite s m e hm).le (.finite t n f hn) = true ↔
      ∃ a b, unpackedRank (.finite s m e hm) = some a ∧ unpackedRank (.finite t n f hn) = some b ∧
        a ≤ b := by
  cases s with
  | negative =>
      cases t with
      | negative =>
          have hswap : ((compare e f).then (compare m n)).swap =
              (compare f e).then (compare n m) := by
            rw [Ordering.swap_then, ← Int.compare_swap, ← Nat.compare_swap, Ordering.swap_swap,
              Ordering.swap_swap]
          simp only [UnpackedFloat.le, UnpackedFloat.compare, Option.any_some, hswap,
            isLE_compare_then, unpackedRank, Option.some.injEq]
          simp [Prod.Lex.toLex_le_toLex, @eq_comm _ f e]
      | positive =>
          simp [UnpackedFloat.le, UnpackedFloat.compare, unpackedRank, Prod.Lex.toLex_le_toLex]
  | positive =>
      cases t with
      | negative =>
          simp [UnpackedFloat.le, UnpackedFloat.compare, unpackedRank, Prod.Lex.toLex_le_toLex]
      | positive =>
          simp only [UnpackedFloat.le, UnpackedFloat.compare, Option.any_some,
            isLE_compare_then, unpackedRank, Option.some.injEq]
          simp [Prod.Lex.toLex_le_toLex]

/-- Values are in order if their ranks are. -/
theorem unpacked_le_iff (x y : UnpackedFloat) :
    x.le y = true ↔ ∃ a b, unpackedRank x = some a ∧ unpackedRank y = some b ∧ a ≤ b := by
  rcases x with s | _ | s | ⟨s, m, e, hm⟩ <;> rcases y with t | _ | t | ⟨t, n, f, hn⟩
  case infinity.infinity =>
    cases s <;> cases t <;>
      simp [UnpackedFloat.le, UnpackedFloat.compare, unpackedRank, Prod.Lex.toLex_le_toLex] <;> rfl
  case finite.finite => exact finite_le_iff s t e f hm hn
  all_goals
    try cases s
    all_goals
      try cases t
      all_goals
        simp [UnpackedFloat.le, UnpackedFloat.compare, unpackedRank, Prod.Lex.toLex_le_toLex]

/-- Doubles are compared by their ranks. -/
theorem le_iff_rank (x y : Float) :
    x ≤ y ↔ ∃ a b, rank x = some a ∧ rank y = some b ∧ a ≤ b := by
  have hle : x ≤ y ↔ x.toModel.unpack.le y.toModel.unpack = true := by
    change decide (x.toModel.unpack.le y.toModel.unpack = true) = true ↔ _
    exact decide_eq_true_iff
  rw [hle, unpacked_le_iff]
  rfl

/-- What is no number has no rank. -/
theorem isNaN_iff_rank (x : Float) : x.isNaN = true ↔ rank x = none := by
  have hunpacked : ∀ u : UnpackedFloat, u.isNaN = true ↔ unpackedRank u = none := by
    rintro (s | _ | s | ⟨s, m, e, hm⟩)
    · cases s <;> simp [UnpackedFloat.isNaN, unpackedRank]
    · simp [UnpackedFloat.isNaN, unpackedRank]
    · simp [UnpackedFloat.isNaN, unpackedRank]
    · cases s <;> simp [UnpackedFloat.isNaN, unpackedRank]
  exact hunpacked x.toModel.unpack

/-- What is no number is not equal to itself. -/
theorem beq_self_iff (x : Float) : (x == x) = true ↔ x.isNaN = false := by
  have hunpacked : ∀ u : UnpackedFloat, u.beq u = true ↔ u.isNaN = false := by
    rintro (s | _ | s | ⟨s, m, e, hm⟩)
    · cases s <;> simp [UnpackedFloat.beq, UnpackedFloat.compare, UnpackedFloat.isNaN] <;> rfl
    · simp [UnpackedFloat.beq, UnpackedFloat.compare, UnpackedFloat.isNaN]
    · simp [UnpackedFloat.beq, UnpackedFloat.compare, UnpackedFloat.isNaN]
    · cases s <;> simp [UnpackedFloat.beq, UnpackedFloat.compare, UnpackedFloat.isNaN]
  exact hunpacked x.toModel.unpack

theorem exists_rank {x : Float} (h : x.isNaN = false) : ∃ a, rank x = some a := by
  rw [← Option.isSome_iff_exists, Option.isSome_iff_ne_none, ne_eq, ← isNaN_iff_rank, h]
  exact Bool.false_ne_true

/-- A number is not above itself. -/
theorem le_self {x : Float} (h : x.isNaN = false) : x ≤ x := by
  obtain ⟨a, ha⟩ := exists_rank h
  exact (le_iff_rank x x).2 ⟨a, a, ha, ha, le_rfl⟩

/-- The order of doubles is transitive. -/
theorem le_trans {x y z : Float} (hxy : x ≤ y) (hyz : y ≤ z) : x ≤ z := by
  obtain ⟨a, b, ha, hb, hab⟩ := (le_iff_rank x y).1 hxy
  obtain ⟨b', c, hb', hc, hbc⟩ := (le_iff_rank y z).1 hyz
  obtain rfl : b = b' := Option.some.inj (hb.symm.trans hb')
  exact (le_iff_rank x z).2 ⟨a, c, ha, hc, hab.trans hbc⟩

/-- Of two numbers one is not above the other. -/
theorem le_total {x y : Float} (hx : x.isNaN = false) (hy : y.isNaN = false) : x ≤ y ∨ y ≤ x := by
  obtain ⟨a, ha⟩ := exists_rank hx
  obtain ⟨b, hb⟩ := exists_rank hy
  rcases Std.le_total (a := a) (b := b) with hab | hba
  · exact .inl ((le_iff_rank x y).2 ⟨a, b, ha, hb, hab⟩)
  · exact .inr ((le_iff_rank y x).2 ⟨b, a, hb, ha, hba⟩)

theorem isNaN_of_le {x y : Float} (h : x ≤ y) : x.isNaN = false ∧ y.isNaN = false := by
  obtain ⟨a, b, ha, hb, -⟩ := (le_iff_rank x y).1 h
  constructor <;> rw [Bool.eq_false_iff, ne_eq, isNaN_iff_rank] <;> simp [ha, hb]

theorem le_of_lt {x y : Float} (h : x < y) : x ≤ y := by
  have hunpacked : ∀ u v : UnpackedFloat, u.lt v = true → u.le v = true := by
    intro u v huv
    unfold UnpackedFloat.lt at huv
    unfold UnpackedFloat.le
    rw [eq_of_beq huv]
    rfl
  exact decide_eq_true (hunpacked _ _ (of_decide_eq_true h))

/-! ## Extremes -/

/-- Whether a double is the first in some order of those in a list that are numbers.  If none of
them is a number, it is none either. -/
def Extreme (before : Float → Float → Prop) (values : List Float) (x : Float) : Prop :=
  if values.all Float.isNaN then x.isNaN = true
  else x ∈ values ∧ x.isNaN = false ∧ ∀ v ∈ values, v.isNaN = false → before x v

/-- Whether a double is the least of those in a list that are numbers. -/
def Least (values : List Float) (x : Float) : Prop :=
  Extreme (fun u v => u ≤ v) values x

/-- Whether a double is the greatest of those in a list that are numbers. -/
def Greatest (values : List Float) (x : Float) : Prop :=
  Extreme (fun u v => v ≤ u) values x

section

variable {before : Float → Float → Prop} [∀ x y, Decidable (before x y)]

/-- The first of two doubles unless the second one comes before it; what is no number gives way. -/
def pick (before : Float → Float → Prop) [∀ x y, Decidable (before x y)] (x y : Float) : Float :=
  if x == x && !decide (before y x) then x else y

/-- What is picked is a number if the second double is. -/
theorem isNaN_pick {y : Float} (hy : y.isNaN = false) (x : Float) :
    (pick before x y).isNaN = false := by
  unfold pick
  split
  · rename_i hx
    rw [Bool.and_eq_true] at hx
    exact (beq_self_iff x).1 hx.1
  · exact hy

variable (hself : ∀ {x : Float}, x.isNaN = false → before x x)
  (htrans : ∀ {x y z : Float}, before x y → before y z → before x z)
  (htotal : ∀ {x y : Float}, x.isNaN = false → y.isNaN = false → before x y ∨ before y x)
  (hnumbers : ∀ {x y : Float}, before x y → x.isNaN = false)

include hself htrans htotal hnumbers

/-- Picking from an extreme and one more double gives an extreme of them all. -/
theorem Extreme.pick {values : List Float} {x : Float} (h : Extreme before values x) (y : Float) :
    Extreme before (values ++ [y]) (pick before x y) := by
  unfold Extreme at h ⊢
  unfold Double.pick
  rw [List.all_append, List.all_cons, List.all_nil, Bool.and_true]
  cases hx : x.isNaN with
  | true =>
      -- nothing so far is a number, so the new one is picked
      have hbeq : (x == x) = false := by
        rw [Bool.eq_false_iff, ne_eq, beq_self_iff, hx]
        exact Bool.noConfusion
      have hall : values.all Float.isNaN = true := by
        by_contra hsome
        rw [if_neg hsome, hx] at h
        exact Bool.noConfusion h.2.1
      rw [hbeq, hall, Bool.false_and, Bool.true_and, if_neg Bool.false_ne_true]
      split
      · assumption
      · rename_i hy
        rw [Bool.not_eq_true] at hy
        refine ⟨by simp, hy, fun v hv hnumber => ?_⟩
        rcases List.mem_append.1 hv with hv | hv
        · rw [List.all_eq_true.1 hall v hv] at hnumber
          exact Bool.noConfusion hnumber
        · rw [List.mem_singleton.1 hv]
          exact hself hy
  | false =>
      have hsome : ¬values.all Float.isNaN = true := by
        intro hall
        rw [if_pos hall, hx] at h
        exact Bool.noConfusion h
      rw [if_neg hsome] at h
      obtain ⟨hmem, -, hfirst⟩ := h
      rw [Bool.not_eq_true] at hsome
      rw [(beq_self_iff x).2 hx, hsome, Bool.false_and, if_neg Bool.false_ne_true, Bool.true_and]
      by_cases hyx : before y x
      · rw [decide_eq_true hyx, Bool.not_true, if_neg Bool.false_ne_true]
        have hy := hnumbers hyx
        refine ⟨by simp, hy, fun v hv hnumber => ?_⟩
        rcases List.mem_append.1 hv with hv | hv
        · exact htrans hyx (hfirst v hv hnumber)
        · rw [List.mem_singleton.1 hv]
          exact hself hy
      · rw [decide_eq_false hyx, Bool.not_false, if_pos rfl]
        refine ⟨List.mem_append_left _ hmem, hx, fun v hv hnumber => ?_⟩
        rcases List.mem_append.1 hv with hv | hv
        · exact hfirst v hv hnumber
        · rw [List.mem_singleton.1 hv] at hnumber ⊢
          exact (htotal hx hnumber).resolve_right hyx

/-- What is picked from a list, one double after the other, is an extreme of the list. -/
theorem extreme_foldl_pick (v : Float) (rest : List Float) :
    Extreme before (v :: rest) (rest.foldl (Double.pick before) v) := by
  have hfrom : ∀ {values : List Float} {x : Float}, Extreme before values x →
      Extreme before (values ++ rest) (rest.foldl (Double.pick before) x) := by
    intro values x hx
    induction rest generalizing values x with
    | nil => simpa using hx
    | cons y rest ih =>
        have hnext := ih (hx.pick hself htrans htotal hnumbers y)
        rwa [List.append_assoc, List.singleton_append] at hnext
  have hfirst : Extreme before [v] v := by
    unfold Extreme
    rw [List.all_cons, List.all_nil, Bool.and_true]
    cases hv : v.isNaN with
    | true => rw [if_pos rfl]
    | false =>
        rw [if_neg Bool.false_ne_true]
        refine ⟨List.mem_singleton_self v, rfl, fun w hw _ => ?_⟩
        rw [List.mem_singleton.1 hw]
        exact hself hv
  exact hfrom hfirst

end

/-- The greater of two doubles is a number if the second one is. -/
theorem isNaN_larger {y : Float} (hy : y.isNaN = false) (x : Float) :
    (Scalar.larger x y).isNaN = false :=
  @isNaN_pick (fun u w => w ≤ u) _ y hy x

/-- The lesser of two doubles is a number if the second one is. -/
theorem isNaN_smaller {y : Float} (hy : y.isNaN = false) (x : Float) :
    (Scalar.smaller x y).isNaN = false :=
  @isNaN_pick (fun u w => u ≤ w) _ y hy x

/-- The lesser of two, over and over, ends with the least. -/
theorem least_foldl_smaller (v : Float) (rest : List Float) :
    Least (v :: rest) (rest.foldl Scalar.smaller v) :=
  extreme_foldl_pick le_self le_trans le_total (fun h => (isNaN_of_le h).1) v rest

/-- The greater of two, over and over, ends with the greatest. -/
theorem greatest_foldl_larger (v : Float) (rest : List Float) :
    Greatest (v :: rest) (rest.foldl Scalar.larger v) :=
  @extreme_foldl_pick (fun u w => w ≤ u) _ le_self (fun hxy hyz => le_trans hyz hxy)
    (fun hx hy => (le_total hx hy).symm) (fun h => (isNaN_of_le h).2) v rest

end Double
end Retrace
