import Retrace.Proofs.DenseProducts
import Retrace.Proofs.SearchErrors
import Retrace.Proofs.SymmetricKernels

/-!
# Distances, index by index

The merges for the distance and for the inner product of two vectors pass the same entries in the
same order.  An entry that one of them meets alone adds its square to the distance, and two entries
under one index add the squares of both less twice their product, so the squared distance is what
the squared lengths are together, less twice the inner product.  For vectors without repeated
indices all three are sums over indices, and the distance is the sum of the squared differences of
what the vectors have at each index.

Main results:

- Theorem `squaredDistance?_eq`: the squared distance by squared lengths and inner product.
- Theorem `dense_sums`: lookups, inner products and distances, index by index.
-/

namespace Retrace
namespace SparseVector

/-! ## Merges of entries -/

/-- Entries as slots, each with its value. -/
def filled {α : Type} (entries : List (Nat × α)) : List (Nat × Option α) :=
  entries.map fun e => (e.1, some e.2)

/-- Indices with as many values are all filled. -/
theorem slots_eq_filled {α : Type} {is : List Nat} {vs : List α} (h : is.length = vs.length) :
    slots is vs = filled (is.zip vs) := by
  induction is generalizing vs with
  | nil => rfl
  | cons i is ih =>
      cases vs with
      | nil => cases h
      | cons v vs => rw [slots, ih (Nat.succ.inj h), List.zip_cons_cons, filled, filled,
          List.map_cons]

/-- The last entries of a vector leave their own values. -/
theorem valuesAfter_filled {α : Type} {v : SparseVector α} (h : v.WellFormed)
    {rest : List (Nat × α)} (hrest : rest <:+ v.entries) :
    v.valuesAfter (filled rest) = some (rest.map Prod.snd) := by
  obtain ⟨passed, hsplit⟩ := hrest
  have hlength : passed.length + rest.length = v.indices.length := by
    rw [← List.length_append, hsplit, entries, List.length_zip, h.1, Nat.min_self]
  have hvalues : v.values = passed.map Prod.snd ++ rest.map Prod.snd := by
    rw [← List.map_append, hsplit, entries, List.map_snd_zip (Nat.le_of_eq h.1.symm)]
  have hstart : v.indices.length - (filled rest).length = passed.length := by
    rw [filled, List.length_map]
    omega
  rw [valuesAfter, hstart, if_pos (by rw [← h.1]; omega), hvalues,
    List.drop_left' (List.length_map _)]

/-- The sum of the squares of the values of entries. -/
def squares (entries : List (Nat × ℚ)) : ℚ :=
  (entries.map fun e => e.2 * e.2).sum

@[simp]
theorem squares_nil : squares [] = 0 :=
  rfl

/-- The square of a first entry is added. -/
@[simp]
theorem squares_cons (e : Nat × ℚ) (entries : List (Nat × ℚ)) :
    squares (e :: entries) = e.2 * e.2 + squares entries :=
  List.sum_cons

theorem sumOfSquares_values (entries : List (Nat × ℚ)) :
    Scalar.sumOfSquares (entries.map Prod.snd) = squares entries := by
  rw [Scalar.sumOfSquares, Smo.total_eq_sum, List.map_map]
  rfl

/-- The square of a length is the sum of the squares of the entries. -/
theorem normSquared_eq_squares {v : SparseVector ℚ} (h : v.indices.length = v.values.length) :
    v.normSquared = squares v.entries := by
  rw [← sumOfSquares_values, entries, List.map_snd_zip (Nat.le_of_eq h.symm), normSquared]

/-- The merge for the distance goes with the one for the inner product.  What it adds up and what it
leaves are together the squares of all entries less twice what the other merge adds. -/
theorem exists_distanceFrom (sum dots : ℚ) (xs ys : List (Nat × ℚ)) :
    ∃ t l r, distanceFrom sum (filled xs) (filled ys) = some (t, filled l, filled r) ∧
      l <:+ xs ∧ r <:+ ys ∧
      t + squares l + squares r =
        sum + squares xs + squares ys - 2 * (dotFrom dots xs ys - dots) := by
  fun_induction dotFrom dots xs ys generalizing sum with
  | case1 dots ys =>
      exact ⟨sum, [], ys, by simp [filled, distanceFrom], List.suffix_rfl, List.suffix_rfl,
        by ring⟩
  | case2 dots x xs =>
      exact ⟨sum, x :: xs, [], by simp [filled, distanceFrom], List.suffix_rfl, List.suffix_rfl,
        by ring⟩
  | case3 dots a xs j b ys ih =>
      obtain ⟨t, l, r, hmerge, hl, hr, hsum⟩ := ih (sum + (a - b) * (a - b))
      refine ⟨t, l, r, ?_, hl.trans (List.suffix_cons _ _), hr.trans (List.suffix_cons _ _), ?_⟩
      · simpa [filled, distanceFrom] using hmerge
      · simp only [hsum, squares_cons]
        ring
  | case4 dots i a xs j b ys hne hlt ih =>
      obtain ⟨t, l, r, hmerge, hl, hr, hsum⟩ := ih (sum + a * a)
      refine ⟨t, l, r, ?_, hl.trans (List.suffix_cons _ _), hr, ?_⟩
      · simpa [filled, distanceFrom, hne, hlt] using hmerge
      · simp only [hsum, squares_cons]
        ring
  | case5 dots i a xs j b ys hne hge ih =>
      obtain ⟨t, l, r, hmerge, hl, hr, hsum⟩ := ih (sum + b * b)
      refine ⟨t, l, r, ?_, hl, hr.trans (List.suffix_cons _ _), ?_⟩
      · simpa [filled, distanceFrom, hne, hge] using hmerge
      · simp only [hsum, squares_cons]
        ring

variable {x y : SparseVector ℚ}

/-- The squared distance is what the squared lengths are together less twice the inner product, also
where indices repeat. -/
theorem squaredDistance?_eq (hx : x.WellFormed) (hy : y.WellFormed) :
    x.squaredDistance? y = some (x.normSquared + y.normSquared - 2 * x.dot y) := by
  obtain ⟨t, l, r, hmerge, hl, hr, hsum⟩ := exists_distanceFrom 0 0 x.entries y.entries
  rw [entries, entries, ← slots_eq_filled hx.1, ← slots_eq_filled hy.1] at hmerge
  rw [squaredDistance?_of_distanceFrom hmerge, valuesAfter_filled hx hl, valuesAfter_filled hy hr,
    Option.bind_some, Option.map_some, Option.some.injEq, sumOfSquares_values, sumOfSquares_values,
    normSquared_eq_squares hx.1, normSquared_eq_squares hy.1, dot]
  linarith

/-! ## Sums over indices -/

/-- The squared length is the sum of the squares at each index, over any indices that have those of
the vector. -/
theorem normSquared_eq_sum (hx : x.Strict) (indices : Finset Nat)
    (h : ∀ i ∈ x.indices, i ∈ indices) : x.normSquared = ∑ i ∈ indices, x.get i * x.get i := by
  rw [normSquared_eq_squares hx.length_eq, squares,
    sum_map_entries hx.pairwise_entries (fun _ a => a * a) (fun _ => zero_mul 0)
      fun e he => h e.1 (List.of_mem_zip he).1]
  simp only [get_eq_stored hx]

/-- The squared distance is the sum of the squared differences at each index, over any indices that
have those of both vectors. -/
theorem squaredDistance?_eq_sum (hx : x.Strict) (hy : y.Strict) (indices : Finset Nat)
    (hindices : ∀ i ∈ x.indices, i ∈ indices) (hothers : ∀ i ∈ y.indices, i ∈ indices) :
    x.squaredDistance? y = some (∑ i ∈ indices, (x.get i - y.get i) ^ 2) := by
  have hsquare : ∀ i, (x.get i - y.get i) ^ 2 =
      x.get i * x.get i + y.get i * y.get i - 2 * (x.get i * y.get i) := fun i => by ring
  rw [squaredDistance?_eq hx.wellFormed hy.wellFormed, normSquared_eq_sum hx indices hindices,
    normSquared_eq_sum hy indices hothers, dot_eq_sum hx hy indices hindices]
  simp only [hsquare, Finset.sum_sub_distrib, Finset.sum_add_distrib, Finset.mul_sum]

/-- A vector has values at finitely many places. -/
theorem finite_support_get (v : SparseVector ℚ) : (Function.support v.get).Finite := by
  refine v.indices.toFinset.finite_toSet.subset fun i hi => ?_
  rw [Finset.mem_coe, List.mem_toFinset]
  exact not_imp_comm.1 get_of_notMem hi

/-- A lookup by halving finds the value that is stored under an index, and zero where none is, so
that all sums over indices are finite.  For vectors without repeated indices the inner product is
the sum of the products at all indices, and the squared distance is the sum of the squared
differences at all indices, which is what the squared lengths are together less twice the inner
product. -/
theorem dense_sums (hx : x.Strict) (hy : y.Strict) :
    (∀ i, x.get i = stored x.entries i ∧ y.get i = stored y.entries i) ∧
    (Function.support x.get).Finite ∧ (Function.support y.get).Finite ∧
    x.dot y = ∑ᶠ i, x.get i * y.get i ∧
    x.squaredDistance? y = some (∑ᶠ i, (x.get i - y.get i) ^ 2) ∧
    x.squaredDistance? y = some (x.normSquared + y.normSquared - 2 * x.dot y) := by
  refine ⟨fun i => ⟨get_eq_stored hx i, get_eq_stored hy i⟩, finite_support_get x,
    finite_support_get y, dot_eq_finsum hx hy, ?_, squaredDistance?_eq hx.wellFormed hy.wellFormed⟩
  have hsupport : (Function.support fun i => (x.get i - y.get i) ^ 2) ⊆
      (x.indices.toFinset ∪ y.indices.toFinset : Finset Nat) := by
    intro i hi
    by_contra hnone
    simp only [Finset.coe_union, Set.mem_union, Finset.mem_coe, List.mem_toFinset, not_or] at hnone
    exact hi (by simp only [get_of_notMem hnone.1, get_of_notMem hnone.2, sub_self, ne_eq,
      OfNat.ofNat_ne_zero, not_false_eq_true, zero_pow])
  rw [finsum_eq_sum_of_support_subset _ hsupport]
  exact squaredDistance?_eq_sum hx hy _
    (fun i hi => Finset.mem_union_left _ (List.mem_toFinset.2 hi))
    (fun i hi => Finset.mem_union_right _ (List.mem_toFinset.2 hi))

/-- Two vectors with two common indices and others before, between and after them. -/
theorem dense_sums_interleaved :
    let x : SparseVector ℚ := ⟨[1, 3, 7], [2, -1, 4]⟩
    let y : SparseVector ℚ := ⟨[0, 3, 7, 9], [5, 3, 1 / 2, 1]⟩
    x.Strict ∧ y.Strict ∧ ∑ᶠ i, x.get i * y.get i = -1 ∧
      ∑ᶠ i, (x.get i - y.get i) ^ 2 = 233 / 4 := by
  intro x y
  have hx : x.Strict := ⟨rfl, by decide⟩
  have hy : y.Strict := ⟨rfl, by decide⟩
  obtain ⟨-, -, -, hdot, hdistance, hnorms⟩ := dense_sums hx hy
  have hvalue : x.dot y = -1 := by
    simp [dot, entries, x, y, dotFrom]
    norm_num
  refine ⟨hx, hy, hdot.symm.trans hvalue, ?_⟩
  have hboth := hdistance.symm.trans hnorms
  rw [Option.some.injEq] at hboth
  rw [hboth, hvalue, normSquared_eq_squares hx.length_eq, normSquared_eq_squares hy.length_eq]
  simp [entries, x, y]
  norm_num

end SparseVector
end Retrace
