import Retrace.Model

/-!
# What kernels ask of a vector

The inner product looks only at entries, which have a value, so a kernel that is made from it has a
value for any two vectors.  The distance merges the indices of two vectors and takes the value of
each index that it passes: of a vector with fewer values than indices it can run out.  It passes all
indices of a vector if the other vector repeats an index that is at least as great often enough.

Main results:

- Theorem `SparseVector.squaredDistance?_eq_none_iff`: when a vector has no distance to another one.
- Theorem `Kernel.value?_eq_none_iff`: when a kernel has no value for two vectors.
- Theorem `Model.decision?_eq_none_iff`: when a model decides nothing on a vector.
-/

namespace Retrace
namespace SparseVector

/-! ## Indices that a merge passes -/

/-- How many indices of a list are passed when it is merged with another list, up to the end of one
of them. -/
def passed : List Nat → List Nat → Nat
  | [], _ => 0
  | _ :: _, [] => 0
  | i :: is, j :: js =>
      if i = j then passed is js + 1
      else if i < j then passed is (j :: js) + 1
      else passed (i :: is) js
termination_by is js => is.length + js.length

@[simp] theorem passed_nil (js : List Nat) : passed [] js = 0 := by rw [passed]

@[simp] theorem passed_nil_right (is : List Nat) : passed is [] = 0 := by cases is <;> rw [passed]

/-- No more entries are passed than there are. -/
theorem passed_le (is js : List Nat) : passed is js ≤ is.length := by
  fun_induction passed is js with
  | case1 | case2 => exact Nat.zero_le _
  | case3 => rw [List.length_cons]; omega
  | case4 => rw [List.length_cons]; omega
  | case5 _ _ _ _ _ _ ih => exact ih

/-- Beside a great index that is repeated often enough, all indices are passed. -/
theorem passed_replicate {is : List Nat} {greatest : Nat} (h : ∀ i ∈ is, i ≤ greatest) {n : Nat}
    (hn : is.length ≤ n) : passed is (List.replicate n greatest) = is.length := by
  induction is generalizing n with
  | nil => rw [passed_nil, List.length_nil]
  | cons i rest ih =>
      obtain ⟨hfirst, hrest⟩ := List.forall_mem_cons.1 h
      obtain ⟨m, rfl⟩ : ∃ m, n = m + 1 := ⟨n - 1, by rw [List.length_cons] at hn; omega⟩
      have hm : rest.length ≤ m := Nat.le_of_succ_le_succ hn
      rw [List.replicate_succ, passed]
      split
      · rw [ih hrest hm, List.length_cons]
      · rw [if_pos (by omega), ← List.replicate_succ, ih hrest (Nat.le_succ_of_le hm),
          List.length_cons]

/-! ## Distances -/

variable {α : Type}

/-- There is a slot for each index. -/
theorem length_slots (is : List Nat) (vs : List α) : (slots is vs).length = is.length := by
  induction is generalizing vs with
  | nil => rfl
  | cons i rest ih => cases vs <;> rw [slots, List.length_cons, List.length_cons, ih]

/-- How merging with a vector that has all its values may end: without a result where more indices
are passed than there are values, and otherwise with what was not passed. -/
inductive Ends (is js : List Nat) (vs : List α) :
    Option (α × List (Nat × Option α) × List (Nat × Option α)) → Prop
  | missing (h : vs.length < passed is js) : Ends is js vs none
  | ended {sum : α} {xs ys : List (Nat × Option α)} (h : passed is js ≤ vs.length)
      (hxs : xs.length + passed is js = is.length) (hys : ys.length + passed js is = js.length) :
      Ends is js vs (some (sum, xs, ys))

namespace Ends

variable {i j : Nat} {is js : List Nat} {v : α} {vs : List α}
  {r : Option (α × List (Nat × Option α) × List (Nat × Option α))}

/-- Passing an index of both vectors. -/
theorem both (h : Ends is js vs r) : Ends (i :: is) (i :: js) (v :: vs) r := by
  have hfirst : passed (i :: is) (i :: js) = passed is js + 1 := by rw [passed, if_pos rfl]
  have hsecond : passed (i :: js) (i :: is) = passed js is + 1 := by rw [passed, if_pos rfl]
  cases h with
  | missing h => exact .missing (by rw [hfirst, List.length_cons]; omega)
  | ended h hxs hys =>
      exact .ended (by rw [hfirst, List.length_cons]; omega)
        (by rw [hfirst, List.length_cons]; omega) (by rw [hsecond, List.length_cons]; omega)

/-- Passing an index of the first vector. -/
theorem first (hlt : i < j) (h : Ends is (j :: js) vs r) :
    Ends (i :: is) (j :: js) (v :: vs) r := by
  have hfirst : passed (i :: is) (j :: js) = passed is (j :: js) + 1 := by
    rw [passed, if_neg (by omega), if_pos hlt]
  have hsecond : passed (j :: js) (i :: is) = passed (j :: js) is := by
    rw [passed, if_neg (by omega), if_neg (by omega)]
  cases h with
  | missing h => exact .missing (by rw [hfirst, List.length_cons]; omega)
  | ended h hxs hys =>
      exact .ended (by rw [hfirst, List.length_cons]; omega)
        (by rw [hfirst, List.length_cons]; omega) (by rw [hsecond]; omega)

/-- Passing an index of the second vector. -/
theorem second (hlt : j < i) (h : Ends (i :: is) js vs r) : Ends (i :: is) (j :: js) vs r := by
  have hfirst : passed (i :: is) (j :: js) = passed (i :: is) js := by
    rw [passed, if_neg (by omega), if_neg (by omega)]
  have hsecond : passed (j :: js) (i :: is) = passed js (i :: is) + 1 := by
    rw [passed, if_neg (by omega), if_pos hlt]
  cases h with
  | missing h => exact .missing (by rw [hfirst]; exact h)
  | ended h hxs hys =>
      exact .ended (by rw [hfirst]; exact h) (by rw [hfirst]; exact hxs)
        (by rw [hsecond, List.length_cons]; omega)

end Ends

variable [Scalar α]

/-- A distance breaks off where a value is missing for an entry that it passes. -/
theorem ends_distanceFrom (is js : List Nat) (vs ws : List α) (hvalues : js.length ≤ ws.length)
    (sum : α) : Ends is js vs (distanceFrom sum (slots is vs) (slots js ws)) := by
  fun_induction passed is js generalizing vs ws sum with
  | case1 js =>
      rw [slots, distanceFrom]
      exact .ended (by simp) (by simp) (by simp [length_slots])
  | case2 i is =>
      have hend : distanceFrom sum (slots (i :: is) vs) (slots [] ws) =
          some (sum, slots (i :: is) vs, []) := by
        cases vs <;> simp [slots, distanceFrom]
      rw [hend]
      exact .ended (by simp) (by simp [length_slots]) (by simp)
  | case3 is i js ih =>
      obtain ⟨w, ws, rfl⟩ := List.exists_cons_of_length_pos (Nat.lt_of_lt_of_le (by simp) hvalues)
      cases vs with
      | nil =>
          rw [slots, slots, distanceFrom, if_pos rfl]
          exact .missing (by rw [passed, if_pos rfl]; exact Nat.succ_pos _)
      | cons v vs =>
          rw [slots, slots, distanceFrom, if_pos rfl]
          exact (ih vs ws (Nat.le_of_succ_le_succ hvalues) _).both
  | case4 i is j js hne hlt ih =>
      obtain ⟨w, ws, rfl⟩ := List.exists_cons_of_length_pos (Nat.lt_of_lt_of_le (by simp) hvalues)
      cases vs with
      | nil =>
          rw [slots, slots, distanceFrom, if_neg hne, if_pos hlt]
          exact .missing (by rw [passed, if_neg hne, if_pos hlt]; exact Nat.succ_pos _)
      | cons v vs =>
          have hrest := ih vs (w :: ws) hvalues (sum + v * v)
          rw [slots] at hrest
          rw [slots, slots, distanceFrom, if_neg hne, if_pos hlt]
          exact hrest.first hlt
  | case5 i is j js hne hge ih =>
      obtain ⟨w, ws, rfl⟩ := List.exists_cons_of_length_pos (Nat.lt_of_lt_of_le (by simp) hvalues)
      have hrest := ih vs ws (Nat.le_of_succ_le_succ hvalues) (sum + w * w)
      have hlt : j < i := by omega
      cases vs <;>
        (rw [slots] at hrest
         rw [slots, slots, distanceFrom, if_neg hne, if_neg hge]
         exact hrest.second hlt)

/-- A vector has no distance to one that has all its values exactly if more of its indices are
passed than it has values. -/
theorem squaredDistance?_eq_none_iff {x y : SparseVector α}
    (hy : y.indices.length ≤ y.values.length) :
    x.squaredDistance? y = none ↔ x.values.length < passed x.indices y.indices := by
  have hends := ends_distanceFrom x.indices y.indices x.values y.values hy (0 : α)
  have hle := passed_le y.indices x.indices
  rw [squaredDistance?]
  generalize distanceFrom (0 : α) (slots x.indices x.values) (slots y.indices y.values) = r at hends
  cases hends with
  | missing h => simp [h]
  | ended h hxs hys =>
      have hx : x.indices.length - _ = passed x.indices y.indices := Nat.sub_eq_of_eq_add' hxs.symm
      have hy' : y.indices.length - _ = passed y.indices x.indices :=
        Nat.sub_eq_of_eq_add' hys.symm
      simp only [valuesAfter, hx, hy', if_pos h, if_pos (Nat.le_trans hle hy)]
      simp [h]

end SparseVector

/-! ## Decisions -/

/-- A kernel has no value exactly if it asks for the distance and there is none. -/
theorem Kernel.value?_eq_none_iff {k : Kernel} {x y : SparseVector Float}
    (hy : y.indices.length ≤ y.values.length) :
    k.value? x y = none ↔
      (∃ gamma, k = .rbf gamma) ∧ x.values.length < SparseVector.passed x.indices y.indices := by
  cases k <;> simp [value?, SparseVector.squaredDistance?_eq_none_iff hy]

namespace Model

/-- Terms break off if one of the kernel values does. -/
theorem terms?_eq_none_iff {value? : SparseVector Float → Option Float}
    {entries : List (SparseVector Float × Float)} :
    terms? value? entries = none ↔ ∃ e ∈ entries, value? e.1 = none := by
  induction entries with
  | nil => simp [terms?]
  | cons e rest ih =>
      obtain ⟨support, coefficient⟩ := e
      simp only [List.mem_cons, exists_eq_or_imp, ← ih, terms?]
      cases value? support <;> cases terms? value? rest <;> simp

/-- A model decides nothing exactly if its kernel asks for distances and one of the support vectors
that count runs out of values. -/
theorem decision?_eq_none_iff {m : Model} {v : SparseVector Float}
    (hv : v.indices.length ≤ v.values.length) :
    m.decision? v = none ↔ (∃ gamma, m.kernel = .rbf gamma) ∧
      ∃ e ∈ m.supportVectors.zip m.coefficients,
        e.1.values.length < SparseVector.passed e.1.indices v.indices := by
  rw [decision?, weigh?, Option.map_eq_none_iff, terms?_eq_none_iff]
  simp only [Kernel.value?_eq_none_iff hv]
  constructor
  · rintro ⟨e, he, hkernel, hpassed⟩
    exact ⟨hkernel, e, he, hpassed⟩
  · rintro ⟨hkernel, e, he, hpassed⟩
    exact ⟨e, he, hkernel, hpassed⟩

end Model
end Retrace
