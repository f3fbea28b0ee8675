import Retrace.Keyed

/-!
# Laws of entries by key

Looking keys up in lists of entries that are joined, mapped or filtered, and entries in key order as
maps: they are equal exactly when every key has the same value in both.

Main results:

- Theorem `ofList_eq_iff`: two lists of entries make the same map exactly when every key has the
  same last value in both.
-/

namespace Retrace
namespace Keyed

variable {β γ : Type}

/-! ## Looking up -/

@[simp] theorem lookup_nil (key : String) : lookup key ([] : List (String × β)) = none := rfl

@[simp] theorem lookupLast_nil (key : String) :
    lookupLast key ([] : List (String × β)) = none := rfl

/-- In two lists the first one is searched first. -/
theorem lookup_append (key : String) (a b : List (String × β)) :
    lookup key (a ++ b) = (lookup key a).or (lookup key b) := by
  induction a with
  | nil => simp
  | cons e a ih =>
      simp only [List.cons_append, lookup]
      split
      · simp
      · exact ih

/-- In two lists the second one is searched first for the last value. -/
theorem lookupLast_append (key : String) (a b : List (String × β)) :
    lookupLast key (a ++ b) = (lookupLast key b).or (lookupLast key a) := by
  simp only [lookupLast, List.reverse_append, lookup_append]

/-- The first entry counts for the last value only if no later one has the key. -/
theorem lookupLast_cons (key : String) (e : String × β) (rest : List (String × β)) :
    lookupLast key (e :: rest) =
      (lookupLast key rest).or (if e.1 = key then some e.2 else none) := by
  simp only [lookupLast, List.reverse_cons, lookup_append, lookup]

/-- Values that are changed are found changed. -/
theorem lookup_map (f : String → β → γ) (key : String) (entries : List (String × β)) :
    lookup key (entries.map fun e => (e.1, f e.1 e.2)) = (lookup key entries).map (f key) := by
  induction entries with
  | nil => rfl
  | cons e rest ih =>
      simp only [List.map_cons, lookup]
      split
      · rename_i hkey
        rw [hkey]
        rfl
      · exact ih

/-- Values that are changed are found last as changed. -/
theorem lookupLast_map (f : String → β → γ) (key : String) (entries : List (String × β)) :
    lookupLast key (entries.map fun e => (e.1, f e.1 e.2)) =
      (lookupLast key entries).map (f key) := by
  simp only [lookupLast, ← List.map_reverse, lookup_map]

/-- Entries with the other keys do not matter to a lookup. -/
theorem lookup_filter (p : String → Bool) (key : String) (entries : List (String × β)) :
    lookup key (entries.filter fun e => p e.1) = if p key then lookup key entries else none := by
  induction entries with
  | nil => simp
  | cons e rest ih =>
      by_cases he : e.1 = key
      · subst he
        cases hp : p e.1 <;> simp [hp, lookup, ih]
      · cases hp : p e.1 <;> simp [hp, lookup, he, ih]

/-- Entries with the other keys do not matter to the last value. -/
theorem lookupLast_filter (p : String → Bool) (key : String) (entries : List (String × β)) :
    lookupLast key (entries.filter fun e => p e.1) =
      if p key then lookupLast key entries else none := by
  simp only [lookupLast, ← List.filter_reverse, lookup_filter]

/-- A value that is found stands in the list. -/
theorem mem_of_lookup {key : String} {value : β} {entries : List (String × β)}
    (h : lookup key entries = some value) : (key, value) ∈ entries := by
  induction entries with
  | nil => simp at h
  | cons e rest ih =>
      rw [lookup] at h
      split at h
      · rename_i hkey
        simp only [Option.some.injEq] at h
        rw [← hkey, ← h]
        exact List.mem_cons_self
      · exact List.mem_cons_of_mem _ (ih h)

/-- A value that is found last stands in the list. -/
theorem mem_of_lookupLast {key : String} {value : β} {entries : List (String × β)}
    (h : lookupLast key entries = some value) : (key, value) ∈ entries :=
  List.mem_reverse.1 (mem_of_lookup h)

/-- A key that occurs is looked up. -/
theorem hasKey_eq_isSome (key : String) (entries : List (String × β)) :
    hasKey key entries = (lookup key entries).isSome := by
  induction entries with
  | nil => rfl
  | cons e rest ih =>
      rw [hasKey, List.any_cons, lookup]
      by_cases he : e.1 = key
      · simp [he]
      · rw [if_neg he, ← ih]
        simp [he, hasKey]

/-- Which keys there are does not depend on the order. -/
theorem hasKey_reverse (key : String) (entries : List (String × β)) :
    hasKey key entries.reverse = hasKey key entries := by
  simp [hasKey]

/-- A key that occurs has a last value. -/
theorem hasKey_eq_isSome_lookupLast (key : String) (entries : List (String × β)) :
    hasKey key entries = (lookupLast key entries).isSome := by
  rw [lookupLast, ← hasKey_eq_isSome, hasKey_reverse]

/-- There is no last value exactly where no entry has the key. -/
theorem lookupLast_eq_none_iff {key : String} {entries : List (String × β)} :
    lookupLast key entries = none ↔ hasKey key entries = false := by
  rw [hasKey_eq_isSome_lookupLast]
  cases lookupLast key entries <;> simp

/-- Where no key occurs twice an entry is the one that its key finds. -/
theorem lookup_of_mem {entries : List (String × β)} (hnodup : (entries.map Prod.fst).Nodup)
    {e : String × β} (he : e ∈ entries) : lookup e.1 entries = some e.2 := by
  induction entries with
  | nil => simp at he
  | cons f rest ih =>
      rw [List.map_cons, List.nodup_cons] at hnodup
      rw [lookup]
      rcases List.mem_cons.1 he with rfl | he
      · simp
      · have hne : f.1 ≠ e.1 := fun heq =>
          hnodup.1 (heq ▸ List.mem_map_of_mem he)
        rw [if_neg hne]
        exact ih hnodup.2 he

/-- Where no key occurs twice the first value of a key is the last one. -/
theorem lookupLast_eq_lookup {entries : List (String × β)}
    (hnodup : (entries.map Prod.fst).Nodup) (key : String) :
    lookupLast key entries = lookup key entries := by
  cases h : lookupLast key entries with
  | some value => exact (lookup_of_mem hnodup (mem_of_lookupLast h)).symm
  | none =>
      rw [lookupLast_eq_none_iff, hasKey_eq_isSome] at h
      cases hl : lookup key entries with
      | none => rfl
      | some value => simp [hl] at h

/-! ## Entries that no later entry replaces -/

/-- The entries whose key occurs neither further on nor among `later` entries. -/
def lasting (later : List (String × γ)) : List (String × β) → List (String × β)
  | [] => []
  | e :: rest =>
      if hasKey e.1 rest || hasKey e.1 later then lasting later rest else e :: lasting later rest

/-- A lasting entry is one of the entries. -/
theorem mem_of_mem_lasting {later : List (String × γ)} {entries : List (String × β)}
    {e : String × β} (h : e ∈ lasting later entries) : e ∈ entries := by
  induction entries with
  | nil => simp [lasting] at h
  | cons f rest ih =>
      rw [lasting] at h
      split at h
      · exact List.mem_cons_of_mem _ (ih h)
      · rcases List.mem_cons.1 h with rfl | h
        · exact List.mem_cons_self
        · exact List.mem_cons_of_mem _ (ih h)

theorem nodup_lasting (later : List (String × γ)) (entries : List (String × β)) :
    ((lasting later entries).map Prod.fst).Nodup := by
  induction entries with
  | nil => exact List.nodup_nil
  | cons e rest ih =>
      rw [lasting]
      split
      · exact ih
      · rename_i hlast
        simp only [Bool.or_eq_true, not_or, Bool.not_eq_true] at hlast
        rw [List.map_cons, List.nodup_cons]
        refine ⟨fun hmem => ?_, ih⟩
        rcases List.mem_map.1 hmem with ⟨f, hf, hkey⟩
        have hfind : hasKey e.1 rest = true :=
          List.any_eq_true.2 ⟨f, mem_of_mem_lasting hf, by simp [hkey]⟩
        simp [hlast.1] at hfind

/-- What lasts under a key is its last value, unless the key occurs later. -/
theorem lookupLast_lasting (later : List (String × γ)) (key : String)
    (entries : List (String × β)) :
    lookupLast key (lasting later entries) =
      if hasKey key later then none else lookupLast key entries := by
  induction entries with
  | nil => simp [lasting]
  | cons e rest ih =>
      rw [lasting, lookupLast_cons]
      by_cases hkey : e.1 = key
      · subst hkey
        rw [if_pos rfl]
        cases hlater : hasKey e.1 later with
        | true => simp [ih, hlater]
        | false =>
            cases hrest : hasKey e.1 rest with
            | true =>
                rw [hasKey_eq_isSome_lookupLast, Option.isSome_iff_exists] at hrest
                rcases hrest with ⟨value, hvalue⟩
                simp [ih, hlater, hvalue]
            | false =>
                have hnone := lookupLast_eq_none_iff.2 hrest
                simp [lookupLast_cons, ih, hlater, hnone]
      · rw [if_neg hkey, Option.or_none]
        split
        · exact ih
        · rw [lookupLast_cons, if_neg hkey, Option.or_none, ih]

/-! ## Entries in key order -/

theorem Ascending.lookup_head {e : String × β} {rest : List (String × β)}
    (h : Ascending (e :: rest)) : lookup e.1 rest = none := by
  cases hl : lookup e.1 rest with
  | none => rfl
  | some value => exact absurd (h.1 _ (mem_of_lookup hl)) (String.lt_irrefl _)

theorem Ascending.map (f : String → β → γ) {entries : List (String × β)} (h : Ascending entries) :
    Ascending (entries.map fun e => (e.1, f e.1 e.2)) := by
  induction entries with
  | nil => exact trivial
  | cons e rest ih =>
      refine ⟨?_, ih h.2⟩
      intro f hf
      obtain ⟨g, hg, rfl⟩ := List.mem_map.1 hf
      exact h.1 g hg

/-- In key order no key occurs twice. -/
theorem Ascending.nodup_keys {entries : List (String × β)} (h : Ascending entries) :
    (entries.map Prod.fst).Nodup := by
  induction entries with
  | nil => exact List.nodup_nil
  | cons e rest ih =>
      rw [List.map_cons, List.nodup_cons]
      refine ⟨fun hmem => ?_, ih h.2⟩
      rcases List.mem_map.1 hmem with ⟨f, hf, hkey⟩
      exact String.lt_irrefl _ (hkey ▸ h.1 f hf)

/-- Entries in key order are determined by what their keys find. -/
theorem Ascending.eq_of_lookup {a b : List (String × β)} (ha : Ascending a) (hb : Ascending b)
    (h : ∀ key, lookup key a = lookup key b) : a = b := by
  induction a generalizing b with
  | nil =>
      cases b with
      | nil => rfl
      | cons f b => simpa [lookup] using h f.1
  | cons e a ih =>
      cases b with
      | nil => simpa [lookup] using h e.1
      | cons f b =>
          have hkey : e.1 = f.1 := by
            -- the key of each head is found in the other list, so neither is below the other
            have he : lookup e.1 (f :: b) = some e.2 := by rw [← h]; simp [lookup]
            have hf : lookup f.1 (e :: a) = some f.2 := by rw [h]; simp [lookup]
            rcases List.mem_cons.1 (mem_of_lookup he) with heq | hmem
            · rw [← heq]
            · rcases List.mem_cons.1 (mem_of_lookup hf) with heq | hmem'
              · rw [← heq]
              · exact absurd (String.lt_trans (hb.1 _ hmem) (ha.1 _ hmem')) (String.lt_irrefl _)
          have hvalue : e.2 = f.2 := by
            have := h e.1
            simp only [lookup, if_true, if_pos hkey.symm] at this
            exact Option.some.inj this
          have htail : a = b := by
            apply ih ha.2 hb.2
            intro key
            by_cases hk : e.1 = key
            · subst hk
              rw [ha.lookup_head, hkey, hb.lookup_head]
            · have := h key
              rwa [lookup, lookup, if_neg hk, if_neg (hkey ▸ hk)] at this
          rw [htail, Prod.ext hkey hvalue]

/-- Entries that are in key order stay as they are. -/
theorem ofList_of_ascending {entries : List (String × β)} (h : Ascending entries) :
    ofList entries = entries := by
  apply Ascending.eq_of_lookup (ascending_ofList entries) h
  intro key
  rw [lookup_ofList, lookupLast_eq_lookup h.nodup_keys]

/-- An entry that stays is one of the entries. -/
theorem mem_of_mem_ofList {entries : List (String × β)} {e : String × β} (h : e ∈ ofList entries) :
    e ∈ entries := by
  have hlookup := lookup_of_mem (ascending_ofList entries).nodup_keys h
  rw [lookup_ofList] at hlookup
  exact mem_of_lookupLast hlookup

/-- Values may be changed before or after one is inserted. -/
theorem insert_map (f : β → γ) (key : String) (value : β) (entries : List (String × β)) :
    insert key (f value) (entries.map fun e => (e.1, f e.2)) =
      (insert key value entries).map fun e => (e.1, f e.2) := by
  induction entries with
  | nil => rfl
  | cons e rest ih =>
      rw [List.map_cons, insert, insert]
      split
      · rfl
      · split
        · rfl
        · rw [ih, List.map_cons]

/-- Mapping the values of entries goes along with bringing the entries in key order. -/
theorem ofList_map (f : β → γ) (entries : List (String × β)) :
    ofList (entries.map fun e => (e.1, f e.2)) = (ofList entries).map fun e => (e.1, f e.2) := by
  have step : ∀ l acc : List (String × β),
      (l.map fun e => (e.1, f e.2)).foldl (fun acc e => insert e.1 e.2 acc)
          (acc.map fun e => (e.1, f e.2)) =
        (l.foldl (fun acc e => insert e.1 e.2 acc) acc).map fun e => (e.1, f e.2) := by
    intro l
    induction l with
    | nil => exact fun acc => rfl
    | cons e l ih =>
        intro acc
        rw [List.map_cons, List.foldl_cons, List.foldl_cons, insert_map f]
        exact ih _
  exact step entries []

/-- Two lists of entries make the same map exactly when every key has the same last value. -/
theorem ofList_eq_iff {a b : List (String × β)} :
    ofList a = ofList b ↔ ∀ key, lookupLast key a = lookupLast key b := by
  constructor
  · intro h key
    rw [← lookup_ofList, ← lookup_ofList, h]
  · intro h
    apply Ascending.eq_of_lookup (ascending_ofList a) (ascending_ofList b)
    intro key
    rw [lookup_ofList, lookup_ofList, h]

end Keyed
end Retrace
