import Retrace.Proofs.Occurrences

/-!
# Dependency orders are complete and well-founded

Every number of an arrangement stands after its dependencies.  When each number depends on greater
ones only, as the objects of a tree do, a greatest number that is left is always ready, so the
arrangement does not end before it holds all of them.

Main results:

- Theorem `mem_arrange`: an arrangement of numbers that depend on greater ones holds all of them.
- Theorem `getElem?_rows`: the rows of a tree's order are its objects at their positions.
- Theorem `rows_perm_occurrences`: every object of a tree has exactly one row.
- Theorem `position_lt_of_mem_direct`: what stands directly inside an object has an earlier row.
-/

namespace Retrace

/-! ## Arrangements -/

/-- Whether every number stands after its dependencies. -/
def Arranged (dependencies : List (List Nat)) (done : List Nat) : Prop :=
  ∀ i n, done[i]? = some n → ∀ k ∈ dependencies[n]?.getD [], k ∈ done.take i

/-- Whether every number depends only on greater ones that are to be arranged. -/
def Descending (dependencies : List (List Nat)) : Prop :=
  ∀ n, ∀ k ∈ dependencies[n]?.getD [], n < k ∧ k < dependencies.length

/-- What is taken next waits for nothing. -/
theorem ready_of_nextReady {dependencies : List (List Nat)} {done : List Nat} {n : Nat}
    (h : nextReady dependencies done = some n) : ∀ k ∈ dependencies[n]?.getD [], k ∈ done := by
  have hp := List.find?_some h
  simp only [Bool.and_eq_true, List.all_eq_true, List.contains_eq_mem, decide_eq_true_eq] at hp
  exact hp.2

/-- A ready number is put after its dependencies. -/
theorem Arranged.append {dependencies : List (List Nat)} {done : List Nat} {n : Nat}
    (h : Arranged dependencies done) (hready : nextReady dependencies done = some n) :
    Arranged dependencies (done ++ [n]) := by
  intro i m hm k hk
  rcases Nat.lt_or_ge i done.length with hi | hi
  · rw [List.getElem?_append_left hi] at hm
    rw [List.take_append_of_le_length (Nat.le_of_lt hi)]
    exact h i m hm k hk
  · rw [List.getElem?_append_right hi, List.getElem?_singleton] at hm
    split at hm
    · rename_i hzero
      simp only [Option.some.injEq] at hm
      subst hm
      rw [show i = done.length by omega, List.take_left]
      exact ready_of_nextReady hready k hk
    · simp at hm

/-- Taking more objects keeps the arrangement. -/
theorem arranged_arrangeFrom {dependencies : List (List Nat)} {done : List Nat} (steps : Nat)
    (h : Arranged dependencies done) :
    Arranged dependencies (arrangeFrom dependencies done steps) := by
  induction steps generalizing done with
  | zero => exact h
  | succ steps ih =>
      rw [arrangeFrom]
      cases hready : nextReady dependencies done with
      | none => exact h
      | some n => exact ih (h.append hready)

/-- In an arrangement every number stands after its dependencies. -/
theorem arranged_arrange (dependencies : List (List Nat)) :
    Arranged dependencies (arrange dependencies) :=
  arranged_arrangeFrom _ (by simp [Arranged])

/-- An arrangement that ends while a number is ready has taken all its steps. -/
theorem length_arrangeFrom {dependencies : List (List Nat)} {done : List Nat} {steps n : Nat}
    (h : nextReady dependencies (arrangeFrom dependencies done steps) = some n) :
    (arrangeFrom dependencies done steps).length = done.length + steps := by
  induction steps generalizing done with
  | zero => rfl
  | succ steps ih =>
      rw [arrangeFrom] at h ⊢
      cases hready : nextReady dependencies done with
      | none => simp [hready] at h
      | some m =>
          simp only [hready] at h ⊢
          rw [ih h, List.length_append, List.length_singleton]
          omega

/-- An arrangement ends only where no number is ready. -/
theorem nextReady_arrange (dependencies : List (List Nat)) :
    nextReady dependencies (arrange dependencies) = none := by
  cases h : nextReady dependencies (arrange dependencies) with
  | none => rfl
  | some n =>
      have hlength : (arrange dependencies).length = dependencies.length := by
        have := length_arrangeFrom h
        rwa [List.length_nil, Nat.zero_add] at this
      rcases nextReady_spec h with ⟨hlt, hnew⟩
      -- one number more than there are would stand in it
      have hnodup : (n :: arrange dependencies).Nodup :=
        List.nodup_cons.2 ⟨hnew, nodup_arrange dependencies⟩
      have hsubset : n :: arrange dependencies ⊆ List.range dependencies.length := by
        intro m hm
        rw [List.mem_range]
        rcases List.mem_cons.1 hm with rfl | hm
        · exact hlt
        · exact lt_of_mem_arrange hm
      have := hnodup.length_le_of_subset hsubset
      simp only [List.length_cons, List.length_range] at this
      omega

/-- Where no number is ready the greatest number that is left would be, so none is left. -/
theorem mem_of_nextReady_eq_none {dependencies : List (List Nat)} {done : List Nat}
    (hdesc : Descending dependencies) (h : nextReady dependencies done = none) :
    ∀ left n, n + left = dependencies.length → n < dependencies.length → n ∈ done := by
  intro left
  induction left using Nat.strongRecOn with
  | ind left ih =>
      intro n hleft hn
      apply Decidable.byContradiction
      intro hnot
      have hready : ∀ k ∈ dependencies[n]?.getD [], k ∈ done := by
        intro k hk
        rcases hdesc n k hk with ⟨hlt, hk⟩
        exact ih (dependencies.length - k) (by omega) k (by omega) hk
      rw [nextReady, List.find?_eq_none] at h
      apply h n (List.mem_range.2 hn)
      simpa [hnot] using hready

/-- An arrangement of numbers that depend on greater ones holds all of them. -/
theorem mem_arrange {dependencies : List (List Nat)} (hdesc : Descending dependencies) {n : Nat} :
    n ∈ arrange dependencies ↔ n < dependencies.length := by
  constructor
  · exact lt_of_mem_arrange
  · intro hn
    exact mem_of_nextReady_eq_none hdesc (nextReady_arrange dependencies)
      (dependencies.length - n) n (by omega) hn

theorem arrange_perm_range {dependencies : List (List Nat)} (hdesc : Descending dependencies) :
    (arrange dependencies).Perm (List.range dependencies.length) := by
  rw [List.perm_ext_iff_of_nodup (nodup_arrange dependencies) List.nodup_range]
  intro n
  rw [mem_arrange hdesc, List.mem_range]

/-! ## Orders of trees -/

/-- What is directly inside an object has a greater number. -/
theorem descending_direct (root : Record) :
    Descending (root.occurrences.map Occurrence.direct) := by
  intro n k hk
  rw [List.getElem?_map] at hk
  cases ho : root.occurrences[n]? with
  | none => simp [ho] at hk
  | some o =>
      rw [ho] at hk
      rcases Record.exists_of_mem_direct ho hk with ⟨hlt, i, hi⟩
      rw [List.length_map]
      exact ⟨hlt, (List.getElem?_eq_some_iff.1 hi).1⟩

namespace DependencyOrder

/-- The arrangement has the numbers of the objects. -/
theorem mem_sequence {root : Record} {n : Nat} :
    n ∈ (ofRecord root).sequence ↔ n < root.occurrences.length := by
  rw [← List.length_map Occurrence.direct]
  exact mem_arrange (descending_direct root)

/-- An object stands at a position exactly when the position is its own. -/
theorem get?_eq_some_iff {root : Record} {p : Nat} {o : Occurrence} :
    (ofRecord root).get? p = some o ↔
      o ∈ root.occurrences ∧ (ofRecord root).positionOf? o = some p := by
  have hnodup : (ofRecord root).sequence.Nodup := nodup_arrange _
  simp only [get?, positionOf?, positionOfNumber?, Option.bind_eq_some_iff]
  constructor
  · rintro ⟨n, hn, ho⟩
    rcases Record.getElem?_occurrences.1 ho with ⟨hmem, hnumber⟩
    refine ⟨hmem, n, hnumber, ?_⟩
    rcases List.getElem?_eq_some_iff.1 hn with ⟨hp, hget⟩
    rw [List.idxOf?_eq_some_iff]
    refine ⟨hp, hget, fun j hj heq => ?_⟩
    have := (List.getElem_inj hnodup).1 (heq.trans hget.symm)
    omega
  · rintro ⟨hmem, n, hnumber, hindex⟩
    rcases List.idxOf?_eq_some_iff.1 hindex with ⟨hp, hget, -⟩
    exact ⟨n, List.getElem?_eq_some_iff.2 ⟨hp, hget⟩,
      Record.getElem?_occurrences.2 ⟨hmem, hnumber⟩⟩

/-- Every object of a tree has a position. -/
theorem exists_get? {root : Record} {o : Occurrence} (ho : o ∈ root.occurrences) :
    ∃ p, (ofRecord root).get? p = some o := by
  rcases List.mem_iff_getElem?.1 ho with ⟨n, hn⟩
  obtain ⟨p, hp⟩ := List.mem_iff_getElem?.1
    (mem_sequence.2 (List.getElem?_eq_some_iff.1 hn).1)
  refine ⟨p, ?_⟩
  rw [get?, hp]
  exact hn

/-- Every position below the size has an object. -/
theorem exists_get?_of_lt {root : Record} {p : Nat} (hp : p < (ofRecord root).size) :
    ∃ o, (ofRecord root).get? p = some o := by
  have hn := List.getElem?_eq_getElem (show p < (ofRecord root).sequence.length from hp)
  have hlt := mem_sequence.1 (List.mem_of_getElem? hn)
  rw [get?, hn]
  exact ⟨_, List.getElem?_eq_getElem hlt⟩

/-- What stands directly inside an object has an earlier position. -/
theorem position_lt_of_mem_direct {root : Record} {p : Nat} {o i : Occurrence} {k : Nat}
    (ho : (ofRecord root).get? p = some o) (hk : k ∈ o.direct) (hi : i ∈ root.occurrences)
    (hnumber : i.number? = some k) : ∃ q, q < p ∧ (ofRecord root).get? q = some i := by
  simp only [get?, Option.bind_eq_some_iff] at ho
  rcases ho with ⟨n, hn, ho⟩
  have hbefore : k ∈ (ofRecord root).sequence.take p := by
    apply arranged_arrange (root.occurrences.map Occurrence.direct) p n hn
    rw [List.getElem?_map, show root.occurrences[n]? = some o from ho]
    exact hk
  rcases List.mem_iff_getElem?.1 hbefore with ⟨q, hq⟩
  have hqp : q < p := by
    have := (List.getElem?_eq_some_iff.1 hq).1
    rw [List.length_take] at this
    omega
  rw [List.getElem?_take_of_lt hqp] at hq
  refine ⟨q, hqp, ?_⟩
  rw [get?, hq]
  exact Record.getElem?_occurrences.2 ⟨hi, hnumber⟩

/-! ## Rows -/

/-- Where nothing is dropped, entries stay at their places. -/
theorem getElem?_filterMap_of_isSome {β γ : Type} {f : β → Option γ} {l : List β}
    (h : ∀ a ∈ l, (f a).isSome) (i : Nat) : (l.filterMap f)[i]? = l[i]?.bind f := by
  induction l generalizing i with
  | nil => rfl
  | cons a l ih =>
      rw [List.forall_mem_cons] at h
      rcases Option.isSome_iff_exists.1 h.1 with ⟨b, hb⟩
      rw [List.filterMap_cons_some hb]
      cases i with
      | zero => exact hb.symm
      | succ i => exact ih h.2 i

/-- The entries of a list are those at its places. -/
theorem filterMap_getElem?_range {β : Type} (l : List β) :
    (List.range l.length).filterMap (fun n => l[n]?) = l := by
  induction l with
  | nil => rfl
  | cons a l ih =>
      rw [List.length_cons, List.range_succ_eq_map, List.filterMap_cons]
      simp only [List.getElem?_cons_zero, List.filterMap_map, Function.comp_def,
        List.getElem?_cons_succ, ih]

/-- The rows of a tree's order are its objects at their positions. -/
theorem getElem?_rows (root : Record) (p : Nat) :
    (ofRecord root).rows[p]? = ((ofRecord root).get? p).map fun o => (p, o) := by
  rw [rows, getElem?_filterMap_of_isSome]
  · rcases Nat.lt_or_ge p (ofRecord root).size with hp | hp
    · rw [List.getElem?_range hp]
      rfl
    · rw [List.getElem?_eq_none (by simpa using hp)]
      have hnone : (ofRecord root).sequence[p]? = none := List.getElem?_eq_none hp
      simp [get?, hnone]
  · intro q hq
    rcases exists_get?_of_lt (List.mem_range.1 hq) with ⟨o, ho⟩
    simp [ho]

/-- Every object of a tree has exactly one row. -/
theorem rows_perm_occurrences (root : Record) :
    ((ofRecord root).rows.map Prod.snd).Perm root.occurrences := by
  have hrows : (ofRecord root).rows.map Prod.snd =
      (ofRecord root).sequence.filterMap fun n => root.occurrences[n]? := by
    conv => rhs; rw [← filterMap_getElem?_range (ofRecord root).sequence]
    rw [rows, List.map_filterMap, List.filterMap_filterMap]
    simp only [Option.map_map, Function.comp_def, Option.map_id', get?]
    rfl
  rw [hrows]
  have h := (arrange_perm_range (descending_direct root)).filterMap fun n => root.occurrences[n]?
  rw [List.length_map, filterMap_getElem?_range] at h
  exact h

end DependencyOrder
end Retrace
