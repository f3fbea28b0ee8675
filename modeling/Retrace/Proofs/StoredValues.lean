import Mathlib.Data.List.Nodup
import Retrace.Proofs.Renumbering

/-!
# Values under an index

A vector in index order is determined by the values that it stores under each index.  A vector that
is built from entries stores under an index what the entries have for it, in their order, since the
sort is stable.  Keeping the indices of a list moves the values of each to its place in the list, so
two such steps are one step with the list that goes through both.

Main results:

- Theorem `valuesOf_entries_ofEntries`: building a vector keeps the values under each index.
- Theorem `eq_of_valuesOf_entries`: the values under each index determine a well-formed vector.
- Theorem `valuesOf_retain_idxOf?`: what is stored after the indices of a list are kept.
- Theorem `retain_retain`: keeping twice is keeping once.
- Theorem `get_eq_getLast?`: the value at an index is the last one that is stored under it.
-/

namespace Retrace

/-! ## Places in a list -/

/-- In a list without repetitions an entry is found at its place. -/
theorem idxOf?_eq_some_iff_of_nodup {ids : List Nat} (h : ids.Nodup) {id place : Nat} :
    ids.idxOf? id = some place ↔ ids[place]? = some id := by
  rw [List.idxOf?_eq_some_iff, List.getElem?_eq_some_iff]
  constructor
  · rintro ⟨hlt, hid, -⟩
    exact ⟨hlt, hid⟩
  · rintro ⟨hlt, hid⟩
    refine ⟨hlt, hid, fun other hother heq => ?_⟩
    have hsame : other = place := (h.getElem_inj_iff).1 (heq.trans hid.symm)
    omega

/-- Members of a list without repeats do not repeat where their places do not. -/
theorem nodup_of_map_getElem? {ids inner outer : List Nat} (hids : ids.Nodup)
    (hinner : inner.Nodup) (h : inner.map (ids[·]?) = outer.map some) : outer.Nodup := by
  apply List.Nodup.of_map some
  rw [← h]
  refine hinner.map_on fun i hi j hj hij => ?_
  have hsome : ids[i]? ∈ outer.map some := h ▸ List.mem_map_of_mem hi
  obtain ⟨id, -, hid⟩ := List.mem_map.1 hsome
  obtain ⟨hlt, -⟩ := List.getElem?_eq_some_iff.1 hid.symm
  exact (List.getElem?_inj hlt hids).1 hij

namespace FeatureMap

/-! ## Values of entries -/

/-- A first entry gives its value to its own feature. -/
theorem valuesOf_cons (e : Nat × Float) (stored : List (Nat × Float)) (id : Nat) :
    valuesOf (e :: stored) id =
      if e.1 = id then e.2 :: valuesOf stored id else valuesOf stored id := by
  unfold valuesOf
  rw [List.filterMap_cons]
  split <;> rename_i h <;> split at h <;> simp_all

theorem valuesOf_append (stored more : List (Nat × Float)) (id : Nat) :
    valuesOf (stored ++ more) id = valuesOf stored id ++ valuesOf more id :=
  List.filterMap_append

/-- The values of a feature are those of its entries. -/
theorem valuesOf_eq_map_filter (stored : List (Nat × Float)) (id : Nat) :
    valuesOf stored id = (stored.filter fun e => e.1 = id).map Prod.snd := by
  unfold valuesOf
  rw [← List.filterMap_eq_map, List.filterMap_filter]
  congr 1
  funext e
  by_cases h : e.1 = id <;> simp [h]

/-- A feature has no values if it has no entries. -/
theorem valuesOf_eq_nil_iff {stored : List (Nat × Float)} {id : Nat} :
    valuesOf stored id = [] ↔ ∀ e ∈ stored, e.1 ≠ id := by
  rw [valuesOf_eq_map_filter, List.map_eq_nil_iff, List.filter_eq_nil_iff]
  simp only [decide_eq_true_eq, ne_eq]

theorem valuesOf_self_ne_nil (e : Nat × Float) (rest : List (Nat × Float)) :
    valuesOf (e :: rest) e.1 ≠ [] := by
  rw [valuesOf_cons, if_pos rfl]
  exact List.cons_ne_nil _ _

/-- The entries of a first sample come first. -/
theorem storedEntries_cons (s : Sample Float) (samples : List (Sample Float)) :
    storedEntries (s :: samples) = s.features.entries ++ storedEntries samples :=
  List.flatMap_cons

end FeatureMap

namespace SparseVector

open FeatureMap (valuesOf valuesOf_append valuesOf_cons valuesOf_eq_map_filter
  valuesOf_eq_nil_iff valuesOf_self_ne_nil)

theorem isEmpty_ofEntries (entries : List (Nat × Float)) :
    (ofEntries entries).isEmpty = entries.isEmpty := by
  rw [Bool.eq_iff_iff, isEmpty, ofEntries, List.isEmpty_iff, List.isEmpty_iff,
    ← List.length_eq_zero_iff, List.length_map, List.length_mergeSort, List.length_eq_zero_iff]

/-- Building a vector keeps the values under each index, in their order. -/
theorem valuesOf_entries_ofEntries (entries : List (Nat × Float)) (id : Nat) :
    valuesOf (ofEntries entries).entries id = valuesOf entries id := by
  rw [entries_ofEntries_mergeSort, valuesOf_eq_map_filter, valuesOf_eq_map_filter]
  congr 1
  -- entries with one index are in order already, so the sort leaves them as a sublist
  have hordered : (entries.filter fun e => e.1 = id).Pairwise
      fun a b => decide (a.1 ≤ b.1) = true := by
    apply List.pairwise_of_forall_mem_list
    intro a ha b hb
    simp only [List.mem_filter, decide_eq_true_eq] at ha hb
    simp [ha.2, hb.2]
  have hsublist : (entries.filter fun e => e.1 = id).Sublist
      ((entries.mergeSort fun a b => a.1 ≤ b.1).filter fun e => e.1 = id) := by
    have hwhole := List.sublist_mergeSort (fun a b c hab hbc => by simp at *; omega)
      (fun a b => by simp; omega) hordered List.filter_sublist
    simpa only [List.filter_filter, Bool.and_self] using hwhole.filter fun e => decide (e.1 = id)
  have hperm := (List.mergeSort_perm entries fun a b => decide (a.1 ≤ b.1)).filter
    fun e => decide (e.1 = id)
  exact (hsublist.eq_of_length hperm.length_eq.symm).symm

/-- A value is stored under no index before the first one. -/
theorem index_le_of_valuesOf_ne_nil {e : Nat × Float} {rest : List (Nat × Float)} {id : Nat}
    (hordered : (e :: rest).Pairwise fun a b => a.1 ≤ b.1) (h : valuesOf (e :: rest) id ≠ []) :
    e.1 ≤ id := by
  refine Nat.le_of_not_lt fun hlt => h (valuesOf_eq_nil_iff.2 fun f hf => ?_)
  rcases List.mem_cons.1 hf with rfl | hf
  · omega
  · have := List.rel_of_pairwise_cons hordered hf
    omega

/-- Entries in order are determined by the values of every feature. -/
theorem eq_of_valuesOf {entries others : List (Nat × Float)}
    (hentries : entries.Pairwise fun a b => a.1 ≤ b.1)
    (hothers : others.Pairwise fun a b => a.1 ≤ b.1)
    (h : ∀ id, valuesOf entries id = valuesOf others id) : entries = others := by
  induction entries generalizing others with
  | nil =>
      cases others with
      | nil => rfl
      | cons b others => exact absurd (h b.1).symm (valuesOf_self_ne_nil b others)
  | cons a entries ih =>
      cases others with
      | nil => exact absurd (h a.1) (valuesOf_self_ne_nil a entries)
      | cons b others =>
          have hindex : a.1 = b.1 := by
            apply Nat.le_antisymm
            · exact index_le_of_valuesOf_ne_nil hentries (h b.1 ▸ valuesOf_self_ne_nil b others)
            · exact index_le_of_valuesOf_ne_nil hothers (h a.1 ▸ valuesOf_self_ne_nil a entries)
          have hfirst := h a.1
          rw [valuesOf_cons, valuesOf_cons, if_pos rfl, if_pos hindex.symm,
            List.cons.injEq] at hfirst
          have hrest : entries = others := by
            apply ih hentries.of_cons hothers.of_cons
            intro id
            have hid := h id
            rw [valuesOf_cons, valuesOf_cons, hindex] at hid
            split at hid
            · exact (List.cons.inj hid).2
            · exact hid
          rw [hrest, Prod.ext hindex hfirst.1]

/-- The values under each index determine a well-formed vector. -/
theorem eq_of_valuesOf_entries {u v : SparseVector Float} (hu : u.WellFormed) (hv : v.WellFormed)
    (h : ∀ id, valuesOf u.entries id = valuesOf v.entries id) : u = v := by
  rw [← ofEntries_entries hu, ← ofEntries_entries hv,
    eq_of_valuesOf (pairwise_entries hu) (pairwise_entries hv) h]

/-- A well-formed vector is empty if it has no value under any index. -/
theorem isEmpty_iff {v : SparseVector Float} (hv : v.WellFormed) :
    v.isEmpty = true ↔ ∀ id, valuesOf v.entries id = [] := by
  rw [isEmpty, ← map_fst_entries hv, List.isEmpty_iff, List.map_eq_nil_iff]
  constructor
  · intro hnil id
    rw [hnil]
    rfl
  · intro h
    rw [List.eq_nil_iff_forall_not_mem]
    intro e he
    exact valuesOf_eq_nil_iff.1 (h e.1) e he rfl

/-- What is stored under a place after the indices of a list are kept: the values under the index
that has the place. -/
theorem valuesOf_retain_idxOf? (v : SparseVector Float) {ids : List Nat} (h : ids.Nodup)
    (place : Nat) :
    valuesOf (v.retain ids.idxOf?).entries place = ids[place]?.elim [] (valuesOf v.entries) := by
  rw [retain, valuesOf_entries_ofEntries]
  unfold valuesOf
  rw [List.filterMap_filterMap]
  cases hplace : ids[place]? with
  | none =>
      rw [Option.elim_none, List.filterMap_eq_nil_iff]
      intro e _
      have hne : ids.idxOf? e.1 ≠ some place := by
        rw [ne_eq, idxOf?_eq_some_iff_of_nodup h, hplace]
        simp
      cases hindex : ids.idxOf? e.1 with
      | none => rfl
      | some index =>
          rw [hindex, ne_eq, Option.some.injEq] at hne
          simp [hne]
  | some id =>
      rw [Option.elim_some]
      congr 1
      funext e
      have hiff : ids.idxOf? e.1 = some place ↔ e.1 = id := by
        rw [idxOf?_eq_some_iff_of_nodup h, hplace, Option.some.injEq]
        exact eq_comm
      cases hindex : ids.idxOf? e.1 with
      | none =>
          rw [hindex] at hiff
          have hne : e.1 ≠ id := fun heq => absurd (hiff.2 heq) (by simp)
          simp [hne]
      | some index =>
          rw [hindex, Option.some.injEq] at hiff
          by_cases hid : e.1 = id
          · simp [hid, hiff.2 hid]
          · simp [hid, mt hiff.1 hid]

/-- Keeping indices of a vector that kept indices already is keeping the indices that they stand
for. -/
theorem retain_retain (v : SparseVector Float) {ids inner outer : List Nat} (hids : ids.Nodup)
    (hinner : inner.Nodup) (h : inner.map (ids[·]?) = outer.map some) :
    (v.retain ids.idxOf?).retain inner.idxOf? = v.retain outer.idxOf? := by
  apply eq_of_valuesOf_entries (wellFormed_retain _ _) (wellFormed_retain _ _)
  intro place
  have houter := nodup_of_map_getElem? hids hinner h
  have hplace : (inner[place]?).map (ids[·]?) = (outer[place]?).map some := by
    rw [← List.getElem?_map, ← List.getElem?_map, h]
  rw [valuesOf_retain_idxOf? _ hinner, valuesOf_retain_idxOf? _ houter]
  cases hi : inner[place]? with
  | none =>
      rw [hi, Option.map_none, eq_comm, Option.map_eq_none_iff] at hplace
      rw [hplace]
      rfl
  | some index =>
      rw [hi, Option.map_some, eq_comm, Option.map_eq_some_iff] at hplace
      obtain ⟨id, hid, hindex⟩ := hplace
      rw [hid, Option.elim_some, Option.elim_some, valuesOf_retain_idxOf? _ hids, ← hindex,
        Option.elim_some]

/-! ## Lookups -/

/-- What halving a range finds in an ascending list: every later index exceeds the target, and the
index found does not, unless its position is the first one. -/
structure Found (indices : List Nat) (target position : Nat) : Prop where
  behind : ∀ p (hp : p < indices.length), position < p → target < indices[p]
  here : position = 0 ∨ ∃ hp : position < indices.length, indices[position] ≤ target

/-- Halving a range that leaves out nothing but greater indices finds the last position. -/
theorem found_lastAtMost {indices : List Nat} (hascending : indices.Pairwise (· ≤ ·)) {target : Nat}
    {base size : Nat} (hfit : base + size ≤ indices.length)
    (hbehind : ∀ p (hp : p < indices.length), base + size ≤ p → target < indices[p])
    (hbase : base = 0 ∨ ∃ hp : base < indices.length, indices[base] ≤ target) :
    Found indices target (lastAtMost indices.toArray target base size) := by
  induction base, size using lastAtMost.induct indices.toArray target with
  | case1 base size hsmall =>
      rw [lastAtMost, if_pos hsmall]
      exact ⟨fun p hp hlt => hbehind p hp (by omega), hbase⟩
  | case2 base size hlarge middle base' ih =>
      have hstep : lastAtMost indices.toArray target base size =
          lastAtMost indices.toArray target base' (size - size / 2) := by
        rw [lastAtMost, if_neg hlarge]
        simp only [base', middle, dite_eq_ite]
      have hmiddle : middle < indices.length := by omega
      have hread : indices.toArray[middle]? = some indices[middle] := by
        rw [List.getElem?_toArray, List.getElem?_eq_getElem hmiddle]
      rw [hstep]
      by_cases hle : indices[middle] ≤ target
      · have hnext : base' = middle := by simp [base', hread, hle]
        rw [hnext] at ih ⊢
        exact ih (by omega) (fun p hp hge => hbehind p hp (by omega)) (.inr ⟨hmiddle, hle⟩)
      · have hnext : base' = base := by simp [base', hread, hle]
        rw [hnext] at ih ⊢
        refine ih (by omega) (fun p hp hge => ?_) hbase
        -- everything from the middle on exceeds the target, as the middle does
        rcases Nat.lt_or_ge middle p with hlt | hge'
        · have := List.pairwise_iff_getElem.1 hascending middle p hmiddle hp hlt
          omega
        · obtain rfl : p = middle := by omega
          omega

/-- The value at an index is the last one that is stored under it, and zero if none is. -/
theorem get_eq_getLast? {v : SparseVector Float} (h : v.WellFormed) (id : Nat) :
    v.get id = (valuesOf v.entries id).getLast?.getD 0 := by
  obtain ⟨hlength, hascending⟩ := h
  have hfound : Found v.indices id (lastAtMost v.indices.toArray id 0 v.indices.length) :=
    found_lastAtMost hascending (by omega) (fun p hp hge => by omega) (.inl rfl)
  rw [get]
  generalize lastAtMost v.indices.toArray id 0 v.indices.length = position at hfound
  by_cases hhere : v.indices[position]? = some id
  · rw [if_pos hhere]
    obtain ⟨hposition, hindex⟩ := List.getElem?_eq_some_iff.1 hhere
    have hvalue : position < v.values.length := hlength ▸ hposition
    have hentry : position < v.entries.length := by
      rw [entries, List.length_zip]
      omega
    have hnone : valuesOf (v.entries.drop (position + 1)) id = [] := by
      rw [valuesOf_eq_nil_iff]
      intro e he
      obtain ⟨k, hk, rfl⟩ := List.mem_iff_getElem.1 he
      rw [List.getElem_drop]
      have hp : position + 1 + k < v.indices.length := by
        rw [List.length_drop, entries, List.length_zip] at hk
        omega
      have := hfound.behind (position + 1 + k) hp (by omega)
      simp only [entries, List.getElem_zip]
      omega
    have hsplit : valuesOf v.entries id =
        valuesOf (v.entries.take position) id ++ [v.values[position]] := by
      conv_lhs => rw [← List.take_append_drop position v.entries,
        List.drop_eq_getElem_cons hentry]
      rw [valuesOf_append, valuesOf_cons, hnone, if_pos (by simp [entries, hindex])]
      simp [entries]
    rw [hsplit, List.getLast?_concat, List.getElem?_eq_getElem hvalue]
  · rw [if_neg hhere]
    have hnil : valuesOf v.entries id = [] := by
      rw [valuesOf_eq_nil_iff]
      rintro e he rfl
      obtain ⟨k, hk, hke⟩ := List.mem_iff_getElem.1 (index_mem_of_mem_entries he)
      -- behind the position indices are greater, and before it they are those of the position
      rcases Nat.lt_trichotomy k position with hlt | rfl | hgt
      · rcases hfound.here with hzero | ⟨hp, hle⟩
        · omega
        · have hge := List.pairwise_iff_getElem.1 hascending k position hk hp hlt
          exact hhere (List.getElem?_eq_some_iff.2 ⟨hp, by omega⟩)
      · exact hhere (List.getElem?_eq_some_iff.2 ⟨hk, hke⟩)
      · have := hfound.behind k hk hgt
        omega
    rw [hnil]
    rfl

end SparseVector
end Retrace
