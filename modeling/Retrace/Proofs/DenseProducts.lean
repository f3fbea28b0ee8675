import Mathlib.Algebra.BigOperators.Finprod
import Retrace.Kernel
import Retrace.Proofs.StoredValues

/-!
# Inner products, index by index

Where no index is stored twice, a lookup finds the value that is stored under an index.  The inner
product of two such vectors passes both lists of entries once; over exact numbers it is the sum of
the products of what the vectors have at each index, most of which are zero.

Main results:

- Theorem `get_eq_stored`: a lookup by halving finds what the entries have for an index.
- Theorem `sum_map_entries`: a sum over entries is a sum over indices.
- Theorem `dot_eq_sum`, `dot_eq_finsum`: the inner product is the sum of the products at each index.
-/

namespace Retrace
namespace SparseVector

variable {α : Type}

/-- Every index has a value, and the indices ascend without repeats. -/
structure Strict (v : SparseVector α) : Prop where
  length_eq : v.indices.length = v.values.length
  ascending : v.indices.Pairwise (· < ·)

/-- A vector with increasing indices is well formed. -/
theorem Strict.wellFormed {v : SparseVector α} (h : v.Strict) : v.WellFormed :=
  ⟨h.length_eq, h.ascending.imp Nat.le_of_lt⟩

theorem Strict.pairwise_entries {v : SparseVector α} (h : v.Strict) :
    v.entries.Pairwise fun a b => a.1 < b.1 := by
  rw [← List.pairwise_map, entries, List.map_fst_zip (Nat.le_of_eq h.length_eq)]
  exact h.ascending

/-! ## Lookups -/

/-- What entries have for an index; zero if they do not have it. -/
def stored [Zero α] (entries : List (Nat × α)) (index : Nat) : α :=
  (entries.lookup index).getD 0

section Stored

variable [Zero α]

@[simp]
theorem stored_nil (index : Nat) : stored ([] : List (Nat × α)) index = 0 :=
  rfl

/-- A first entry stores its value under its index. -/
theorem stored_cons (e : Nat × α) (entries : List (Nat × α)) (index : Nat) :
    stored (e :: entries) index = if index = e.1 then e.2 else stored entries index := by
  unfold stored
  rw [List.lookup_cons]
  by_cases h : index = e.1
  · simp [h]
  · simp [h, beq_eq_false_iff_ne.2 h]

/-- Nothing is stored under an index without an entry. -/
theorem stored_eq_zero {entries : List (Nat × α)} {index : Nat}
    (h : ∀ e ∈ entries, e.1 ≠ index) : stored entries index = 0 := by
  induction entries with
  | nil => rfl
  | cons e entries ih =>
      rw [stored_cons, if_neg (h e List.mem_cons_self).symm]
      exact ih fun f hf => h f (List.mem_cons_of_mem e hf)

/-- An entry of a vector stores its value. -/
theorem stored_of_mem {entries : List (Nat × α)}
    (hordered : entries.Pairwise fun a b => a.1 < b.1) {e : Nat × α} (he : e ∈ entries) :
    stored entries e.1 = e.2 := by
  induction entries with
  | nil => cases he
  | cons f entries ih =>
      rw [stored_cons]
      rcases List.mem_cons.1 he with rfl | he
      · rw [if_pos rfl]
      · rw [if_neg (Nat.ne_of_gt (List.rel_of_pairwise_cons hordered he))]
        exact ih hordered.of_cons he

/-- No entry has an index before the first one. -/
theorem stored_eq_zero_of_lt {e : Nat × α} {entries : List (Nat × α)} {index : Nat}
    (hordered : (e :: entries).Pairwise fun a b => a.1 < b.1) (h : index < e.1) :
    stored (e :: entries) index = 0 := by
  apply stored_eq_zero
  intro f hf
  rcases List.mem_cons.1 hf with rfl | hf
  · omega
  · have := List.rel_of_pairwise_cons hordered hf
    omega

/-- Halving ends at the one place that has the index. -/
theorem get_of_mem {v : SparseVector α} (h : v.Strict) {e : Nat × α} (he : e ∈ v.entries) :
    v.get e.1 = e.2 := by
  obtain ⟨k, hk, rfl⟩ := List.mem_iff_getElem.1 he
  have hindices : k < v.indices.length := by
    rw [entries, List.length_zip] at hk
    omega
  have hvalues : k < v.values.length := h.length_eq ▸ hindices
  simp only [entries, List.getElem_zip]
  have hfound : Found v.indices v.indices[k]
      (lastAtMost v.indices.toArray v.indices[k] 0 v.indices.length) :=
    found_lastAtMost h.wellFormed.2 (by omega) (fun p hp hge => by omega) (.inl rfl)
  have hplace : lastAtMost v.indices.toArray v.indices[k] 0 v.indices.length = k := by
    generalize lastAtMost v.indices.toArray v.indices[k] 0 v.indices.length = position at hfound
    rcases Nat.lt_trichotomy position k with hlt | heq | hgt
    · exact absurd (hfound.behind k hindices hlt) (Nat.lt_irrefl _)
    · exact heq
    · rcases hfound.here with hzero | ⟨hp, hle⟩
      · omega
      · have := List.pairwise_iff_getElem.1 h.ascending k position hindices hp hgt
        omega
  simp only [get, hplace, List.getElem?_eq_getElem hindices, if_pos,
    List.getElem?_eq_getElem hvalues, Option.getD_some]

/-- Where no index is, the value is zero. -/
theorem get_of_notMem {v : SparseVector α} {index : Nat} (h : index ∉ v.indices) :
    v.get index = 0 :=
  if_neg fun hread => h (List.mem_of_getElem? hread)

/-- A lookup by halving finds what the entries have for an index. -/
theorem get_eq_stored {v : SparseVector α} (h : v.Strict) (index : Nat) :
    v.get index = stored v.entries index := by
  by_cases hindex : index ∈ v.indices
  · rw [← List.map_fst_zip (Nat.le_of_eq h.length_eq)] at hindex
    obtain ⟨e, he, rfl⟩ := List.mem_map.1 hindex
    exact (get_of_mem h he).trans (stored_of_mem h.pairwise_entries he).symm
  · rw [get_of_notMem hindex, stored_eq_zero]
    rintro e he rfl
    exact hindex (List.of_mem_zip he).1

end Stored

/-! ## Sums over entries -/

/-- A sum over entries is a sum over indices, if what is summed is zero where nothing is stored. -/
theorem sum_map_entries {entries : List (Nat × ℚ)}
    (hordered : entries.Pairwise fun a b => a.1 < b.1) (f : Nat → ℚ → ℚ) (hf : ∀ i, f i 0 = 0)
    {indices : Finset Nat} (hindices : ∀ e ∈ entries, e.1 ∈ indices) :
    (entries.map fun e => f e.1 e.2).sum = ∑ i ∈ indices, f i (stored entries i) := by
  induction entries with
  | nil => simp [hf]
  | cons e entries ih =>
      have hnone : f e.1 (stored entries e.1) = 0 := by
        rw [stored_eq_zero fun g hg => Nat.ne_of_gt (List.rel_of_pairwise_cons hordered hg), hf]
      have hrest := ih hordered.of_cons fun g hg => hindices g (List.mem_cons_of_mem e hg)
      have hothers : ∑ i ∈ indices.erase e.1, f i (stored (e :: entries) i) =
          ∑ i ∈ indices.erase e.1, f i (stored entries i) :=
        Finset.sum_congr rfl fun i hi => by rw [stored_cons, if_neg (Finset.ne_of_mem_erase hi)]
      calc ((e :: entries).map fun e => f e.1 e.2).sum
          = f e.1 e.2 + ∑ i ∈ indices, f i (stored entries i) := by
            rw [List.map_cons, List.sum_cons, hrest]
        _ = f e.1 e.2 + ∑ i ∈ indices.erase e.1, f i (stored entries i) := by
            rw [Finset.sum_erase indices hnone]
        _ = ∑ i ∈ indices, f i (stored (e :: entries) i) := by
            rw [← Finset.add_sum_erase indices _ (hindices e List.mem_cons_self), hothers,
              stored_cons, if_pos rfl]

/-! ## Inner products -/

/-- The merge adds, for each entry of the first list, its product with what the second one has for
its index. -/
theorem dotFrom_eq_sum_map (sum : ℚ) {xs ys : List (Nat × ℚ)}
    (hxs : xs.Pairwise fun a b => a.1 < b.1) (hys : ys.Pairwise fun a b => a.1 < b.1) :
    dotFrom sum xs ys = sum + (xs.map fun e => e.2 * stored ys e.1).sum := by
  -- an entry of the second list that is passed has no later entry of the first one beside it
  have hpassed : ∀ {j : Nat} {b : ℚ} {xs ys : List (Nat × ℚ)}, (∀ e ∈ xs, j < e.1) →
      (xs.map fun e => e.2 * stored ((j, b) :: ys) e.1) =
        xs.map fun e => e.2 * stored ys e.1 := by
    intro j b xs ys hafter
    refine List.map_congr_left fun e he => ?_
    rw [stored_cons, if_neg (Nat.ne_of_gt (hafter e he))]
  fun_induction dotFrom sum xs ys with
  | case1 sum ys => simp
  | case2 sum x xs => simp
  | case3 sum i a xs b ys ih =>
      rw [ih hxs.of_cons hys.of_cons, List.map_cons, List.sum_cons,
        hpassed fun e he => List.rel_of_pairwise_cons hxs he, stored_cons, if_pos rfl, add_assoc]
  | case4 sum i a xs j b ys hne hlt ih =>
      rw [ih hxs.of_cons hys, List.map_cons, List.sum_cons, stored_eq_zero_of_lt hys hlt, mul_zero,
        zero_add]
  | case5 sum i a xs j b ys hne hge ih =>
      have hafter : ∀ e ∈ (i, a) :: xs, j < e.1 := by
        intro e he
        rcases List.mem_cons.1 he with rfl | he
        · change j < i
          omega
        · have := List.rel_of_pairwise_cons hxs he
          simp only at this
          omega
      rw [ih hxs hys.of_cons, hpassed hafter]

variable {x y : SparseVector ℚ}

/-- The inner product is the sum of the products at each index, over any indices that have those of
the first vector. -/
theorem dot_eq_sum (hx : x.Strict) (hy : y.Strict) (indices : Finset Nat)
    (h : ∀ i ∈ x.indices, i ∈ indices) : x.dot y = ∑ i ∈ indices, x.get i * y.get i := by
  have hmem : ∀ e ∈ x.entries, e.1 ∈ indices := fun e he => h e.1 (List.of_mem_zip he).1
  rw [dot, dotFrom_eq_sum_map _ hx.pairwise_entries hy.pairwise_entries,
    sum_map_entries hx.pairwise_entries (fun i a => a * stored y.entries i) (fun i => zero_mul _)
      hmem]
  simp only [get_eq_stored hx, get_eq_stored hy]
  exact zero_add _

/-- The inner product is the sum of the products at all indices. -/
theorem dot_eq_finsum (hx : x.Strict) (hy : y.Strict) : x.dot y = ∑ᶠ i, x.get i * y.get i := by
  have hnone : ∀ i ∉ x.indices, x.get i * y.get i = 0 := fun i hi => by
    rw [get_of_notMem hi]
    exact zero_mul _
  rw [dot_eq_sum hx hy x.indices.toFinset fun i hi => List.mem_toFinset.2 hi]
  refine (finsum_eq_sum_of_support_subset _ fun i hi => ?_).symm
  rw [Finset.mem_coe, List.mem_toFinset]
  exact not_imp_comm.1 (hnone i) hi

end SparseVector
end Retrace
