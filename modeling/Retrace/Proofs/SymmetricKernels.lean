import Retrace.Proofs.DoubleSymmetry
import Retrace.Proofs.RecentRequests
import Retrace.Proofs.UnbrokenSearch

/-!
# Symmetric kernels

A memory keeps one kernel value for both orders of two samples, so a kernel must not see the order.
The merges of two vectors take the same steps in either order, the two lists with their roles
exchanged, also where an index is repeated.  When one list ends, the rest of the other one is summed
up and added before or after a sum of nothing, which is negative zero.  Three laws of the scalars
are all that this rests on, and doubles satisfy them.

Main results:

- Theorem `SparseVector.distanceFrom_swap`: the merge of the exchanged lists.
- Theorem `SparseVector.squaredDistance?_comm`: distances are symmetric.
- Theorem `Kernel.value?_comm`: every kernel is symmetric.
- Theorem `KernelMatrix.answers_either_order`: a kernel matrix answers in either order with the
  value of the kernel in either order.
-/

namespace Retrace

/-- The laws of scalars under which kernels do not see the order of their vectors. -/
structure Scalar.Unordered (α : Type) [Scalar α] : Prop where
  mul_comm : ∀ a b : α, a * b = b * a
  sub_square_comm : ∀ a b : α, (a - b) * (a - b) = (b - a) * (b - a)
  add_neg_zero : ∀ a : α, a + -0 = a

theorem Double.unordered : Scalar.Unordered Float :=
  ⟨mul_comm, sub_square_comm, add_neg_zero⟩

namespace SparseVector

variable {α : Type}

/-! ## Distances -/

/-- A list that the merge has passed leaves no values. -/
theorem valuesAfter_nil {v : SparseVector α} (h : v.WellFormed) : v.valuesAfter [] = some [] := by
  simp [valuesAfter, h.1]

variable [Scalar α] (laws : Scalar.Unordered α)

include laws in
/-- The merge of the exchanged lists has the same sum and leaves the exchanged rests. -/
theorem distanceFrom_swap (sum : α) (xs ys : List (Nat × Option α)) :
    distanceFrom sum ys xs = (distanceFrom sum xs ys).map fun (t, l, r) => (t, r, l) := by
  fun_induction distanceFrom sum xs ys with
  | case1 sum ys => cases ys <;> simp [distanceFrom]
  | case2 sum x xs => simp [distanceFrom]
  | case3 sum xs j ys a b ih =>
      rw [distanceFrom, if_pos rfl]
      dsimp only
      rw [laws.sub_square_comm b a, ih]
  | case4 sum a xs j b ys hlack =>
      -- one of the two entries lacks its value
      rw [Option.map_none]
      rcases a with _ | a <;> rcases b with _ | b
      case some.some => exact (hlack a b rfl rfl).elim
      all_goals simp [distanceFrom]
  | case5 sum i xs j b ys hne hlt a ih =>
      rw [← ih, distanceFrom.eq_def]
      simp only [Ne.symm hne, if_false, Nat.lt_asymm hlt]
  | case6 sum i xs j b ys hne hlt =>
      rw [Option.map_none, distanceFrom.eq_def]
      simp only [Ne.symm hne, if_false, Nat.lt_asymm hlt]
  | case7 sum i a xs j ys hne hge b ih =>
      have hlt : j < i := by omega
      rw [← ih, distanceFrom.eq_def]
      simp only [Ne.symm hne, if_false, hlt, if_true]
  | case8 sum i a xs j ys hne hge =>
      have hlt : j < i := by omega
      rw [Option.map_none, distanceFrom.eq_def]
      simp only [Ne.symm hne, if_false, hlt, if_true]

/-- A merge runs until one of the two lists ends. -/
theorem eq_nil_or_of_distanceFrom {sum t : α} {xs ys l r : List (Nat × Option α)}
    (h : distanceFrom sum xs ys = some (t, l, r)) : l = [] ∨ r = [] := by
  fun_induction distanceFrom sum xs ys with
  | case1 sum ys =>
      cases h
      exact .inl rfl
  | case2 sum x xs =>
      cases h
      exact .inr rfl
  | case3 sum xs j ys a b ih => exact ih h
  | case5 sum i xs j b ys hne hlt a ih => exact ih h
  | case7 sum i a xs j ys hne hge b ih => exact ih h
  | case4 | case6 | case8 => cases h

/-- The distance from what the merge leaves. -/
theorem squaredDistance?_of_distanceFrom {x y : SparseVector α} {t : α}
    {l r : List (Nat × Option α)}
    (h : distanceFrom 0 (slots x.indices x.values) (slots y.indices y.values) = some (t, l, r)) :
    x.squaredDistance? y = (x.valuesAfter l).bind fun restX => (y.valuesAfter r).map fun restY =>
      t + Scalar.sumOfSquares restX + Scalar.sumOfSquares restY := by
  rw [squaredDistance?, h]
  dsimp only
  cases x.valuesAfter l <;> cases y.valuesAfter r <;> rfl

include laws in
/-- Whatever is left of one vector is added before or after a sum of nothing. -/
theorem squaredDistance?_comm {x y : SparseVector α} (hx : x.WellFormed) (hy : y.WellFormed) :
    x.squaredDistance? y = y.squaredDistance? x := by
  have hswap := distanceFrom_swap laws 0 (slots x.indices x.values) (slots y.indices y.values)
  have hnothing : ∀ a : α, a + Scalar.sumOfSquares [] = a := laws.add_neg_zero
  cases hmerge : distanceFrom 0 (slots x.indices x.values) (slots y.indices y.values) with
  | none =>
      rw [hmerge, Option.map_none] at hswap
      rw [squaredDistance?, squaredDistance?, hmerge, hswap]
  | some left =>
      obtain ⟨t, l, r⟩ := left
      rw [hmerge, Option.map_some] at hswap
      rw [squaredDistance?_of_distanceFrom hmerge, squaredDistance?_of_distanceFrom hswap]
      rcases eq_nil_or_of_distanceFrom hmerge with rfl | rfl
      · rw [valuesAfter_nil hx]
        cases y.valuesAfter r <;> simp [hnothing]
      · rw [valuesAfter_nil hy]
        cases x.valuesAfter l <;> simp [hnothing]

end SparseVector

namespace Kernel

/-- Every kernel is symmetric on vectors in index order. -/
theorem value?_comm (k : Kernel) {x y : SparseVector Float} (hx : x.WellFormed)
    (hy : y.WellFormed) : k.value? x y = k.value? y x := by
  cases k with
  | linear => exact congrArg some (SparseVector.dot_comm Double.unordered.mul_comm x y)
  | rbf gamma =>
      rw [value?, value?, SparseVector.squaredDistance?_comm Double.unordered hx hy]
  | polynomial degree gamma coef0 =>
      rw [value?, value?, polynomialValue, polynomialValue,
        SparseVector.dot_comm Double.unordered.mul_comm x y]

end Kernel

namespace KernelMatrix

/-- A kernel has one value for two vectors that are built from lists, in either order, so a kernel
matrix for samples with such vectors answers every request in range with it, in either order and
after any other requests.  A double that is no number is one and the same here. -/
theorem answers_either_order (k : Kernel) :
    (∀ (is js : List Nat) (vs ws : List Float) (x y : SparseVector Float),
      SparseVector.ofLists? is vs = some x → SparseVector.ofLists? js ws = some y →
        ∃ v, k.value? x y = some v ∧ k.value? y x = some v) ∧
    ∀ (samples : Array (Sample Float)),
      (∀ s ∈ samples, ∃ is vs, SparseVector.ofLists? is vs = some s.features) →
      ∀ (capacity : Nat) (calls : List (Nat × Nat)) (i j : Nat) (hi : i < samples.size)
        (hj : j < samples.size),
        let entry := Smo.pairEntry k.value? samples
        let m := (ofSize samples.size capacity).after entry calls
        ∃ v, k.value? samples[i].features samples[j].features = some v ∧
          k.value? samples[j].features samples[i].features = some v ∧
          (m.request entry i j).1 = some v ∧ (m.request entry j i).1 = some v := by
  have hsymmetric : ∀ {x y : SparseVector Float}, x.WellFormed → y.WellFormed →
      ∃ v, k.value? x y = some v ∧ k.value? y x = some v := by
    intro x y hx hy
    obtain ⟨v, hv⟩ := k.exists_value? hx hy
    exact ⟨v, hv, (k.value?_comm hy hx).trans hv⟩
  refine ⟨fun is js vs ws x y hx hy => hsymmetric (SparseVector.wellFormed_of_ofLists? hx)
    (SparseVector.wellFormed_of_ofLists? hy), ?_⟩
  intro samples hbuilt capacity calls i j hi hj entry m
  have hwell : ∀ s ∈ samples, s.features.WellFormed := fun s hs => by
    obtain ⟨is, vs, h⟩ := hbuilt s hs
    exact SparseVector.wellFormed_of_ofLists? h
  obtain ⟨v, hij, hji⟩ :=
    hsymmetric (hwell _ (Array.getElem_mem hi)) (hwell _ (Array.getElem_mem hj))
  have hfaithful : m.Faithful entry := faithful_after samples.size capacity entry calls
  -- the place of a pair holds its samples in one of the two orders
  have hentry : entry (place i j) = some v := by
    rcases Nat.le_total i j with hle | hle
    · simp only [entry, Smo.pairEntry, place, Nat.min_eq_left hle, Nat.max_eq_right hle,
        Array.getElem?_eq_getElem hi, Array.getElem?_eq_getElem hj, hij]
    · simp only [entry, Smo.pairEntry, place, Nat.min_eq_right hle, Nat.max_eq_left hle,
        Array.getElem?_eq_getElem hi, Array.getElem?_eq_getElem hj, hji]
  have hplace : place j i = place i j := by rw [place, place, Nat.min_comm, Nat.max_comm]
  exact ⟨v, hij, hji, (hfaithful.fst_request i j).trans hentry,
    (hfaithful.fst_request j i).trans (hplace ▸ hentry)⟩

/-- Two samples that store values under one index twice. -/
def doubled : Array (Sample Float) :=
  #[⟨⟨[0, 2, 2], [4, 1, 3]⟩, 1⟩, ⟨⟨[2, 2, 7], [5, 6, 1]⟩, -1⟩]

/-- A memory for one value answers for both orders of two samples with repeated indices, and the
distance kernel has one value for them. -/
theorem answers_either_order_doubled :
    (∀ s ∈ doubled, ∃ is vs, SparseVector.ofLists? is vs = some s.features) ∧
    (∃ v, (Kernel.rbf 0.5).value? doubled[0].features doubled[1].features = some v ∧
      (Kernel.rbf 0.5).value? doubled[1].features doubled[0].features = some v) ∧
    let entry := Smo.pairEntry Kernel.linear.value? doubled
    let m := (ofSize doubled.size 1).after entry [(1, 0), (1, 1)]
    (m.request entry 0 1).1 = some 23 ∧ (m.request entry 1 0).1 = some 23 := by
  have hfirst : SparseVector.ofLists? [2, 0, 2] [(1 : Float), 4, 3] =
      some doubled[0].features := by
    simp [SparseVector.ofLists?, SparseVector.ofEntries, List.mergeSort,
      List.MergeSort.Internal.splitInTwo, doubled]
  have hsecond : SparseVector.ofLists? [2, 7, 2] [(5 : Float), 1, 6] =
      some doubled[1].features := by
    simp [SparseVector.ofLists?, SparseVector.ofEntries, List.mergeSort,
      List.MergeSort.Internal.splitInTwo, doubled]
  have hbuilt : ∀ s ∈ doubled, ∃ is vs, SparseVector.ofLists? is vs = some s.features := by
    intro s hs
    have hcases : s = doubled[0] ∨ s = doubled[1] := by simpa [doubled] using hs
    rcases hcases with rfl | rfl
    · exact ⟨_, _, hfirst⟩
    · exact ⟨_, _, hsecond⟩
  obtain ⟨v, hvalue, -, hij, hji⟩ := (answers_either_order .linear).2 doubled hbuilt 1
    [(1, 0), (1, 1)] 0 1 (by decide) (by decide)
  have hdot : Kernel.linear.value? doubled[0].features doubled[1].features = some 23 := by
    decide +kernel
  obtain rfl : v = 23 := Option.some.inj (hvalue.symm.trans hdot)
  exact ⟨hbuilt, (answers_either_order (.rbf 0.5)).1 _ _ _ _ _ _ hfirst hsecond, hij, hji⟩

end KernelMatrix
end Retrace
