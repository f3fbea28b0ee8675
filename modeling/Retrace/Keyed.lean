/-!
# Entries by key

Association lists in ascending order of their keys, compared by code points, in which no key occurs
twice.  They hold whatever is shown or compared by key: properties of a configuration, entries of a
recorded map, differences, label counts.

Main results:

- Theorem `ascending_insert`: inserting keeps the order.
- Theorem `lookup_insert`: an inserted value is found, and other keys keep theirs.
- Theorem `lookup_ofList`: of entries with one key the last one stays.
-/

namespace Retrace
namespace Keyed

variable {β : Type}

/-- Put a value at its place by key, replacing the value of an equal key. -/
def insert (key : String) (value : β) : List (String × β) → List (String × β)
  | [] => [(key, value)]
  | e :: rest =>
      if key < e.1 then (key, value) :: e :: rest
      else if key = e.1 then (key, value) :: rest
      else e :: insert key value rest

/-- The value of a key. -/
def lookup (key : String) : List (String × β) → Option β
  | [] => none
  | e :: rest => if e.1 = key then some e.2 else lookup key rest

/-- The last value of a key. -/
def lookupLast (key : String) (entries : List (String × β)) : Option β :=
  lookup key entries.reverse

/-- Whether some entry has the key. -/
def hasKey (key : String) (entries : List (String × β)) : Bool :=
  entries.any fun e => e.1 == key

/-- The entries in key order; of entries with one key the last one stays. -/
def ofList (entries : List (String × β)) : List (String × β) :=
  entries.foldl (fun acc e => insert e.1 e.2 acc) []

/-- The entries whose key is not that of an entry before them. -/
def Ascending : List (String × β) → Prop
  | [] => True
  | e :: rest => (∀ f ∈ rest, e.1 < f.1) ∧ Ascending rest

/-! ## Laws -/

/-- After an insertion there is the entry and what was there. -/
theorem mem_insert {key : String} {value : β} {entries : List (String × β)} {e : String × β}
    (h : e ∈ insert key value entries) : e = (key, value) ∨ e ∈ entries := by
  induction entries with
  | nil => simpa [insert] using h
  | cons f rest ih =>
      unfold insert at h
      split at h
      · simpa using h
      · split at h
        · rcases List.mem_cons.1 h with h | h
          · exact .inl h
          · exact .inr (List.mem_cons_of_mem _ h)
        · rcases List.mem_cons.1 h with h | h
          · exact .inr (h ▸ List.mem_cons_self)
          · rcases ih h with h | h
            · exact .inl h
            · exact .inr (List.mem_cons_of_mem _ h)

/-- Inserting keeps the order. -/
theorem ascending_insert {key : String} {value : β} {entries : List (String × β)}
    (h : Ascending entries) : Ascending (insert key value entries) := by
  induction entries with
  | nil => simp [insert, Ascending]
  | cons f rest ih =>
      obtain ⟨hfirst, hrest⟩ := h
      unfold insert
      split
      · rename_i hlt
        refine ⟨fun g hg => ?_, hfirst, hrest⟩
        rcases List.mem_cons.1 hg with rfl | hg
        · exact hlt
        · exact String.lt_trans hlt (hfirst g hg)
      · rename_i hnot
        split
        · rename_i heq
          subst heq
          exact ⟨hfirst, hrest⟩
        · rename_i hne
          refine ⟨fun g hg => ?_, ih hrest⟩
          rcases mem_insert hg with rfl | hg
          · exact Decidable.byContradiction fun hge =>
              hne (String.le_antisymm (String.not_lt.1 hge) (String.not_lt.1 hnot))
          · exact hfirst g hg

/-- Entries brought in key order are in key order. -/
theorem ascending_ofList (entries : List (String × β)) : Ascending (ofList entries) := by
  have key : ∀ (l acc : List (String × β)), Ascending acc →
      Ascending (l.foldl (fun acc e => insert e.1 e.2 acc) acc) := by
    intro l
    induction l with
    | nil => exact fun acc h => h
    | cons e l ih => exact fun acc h => ih _ (ascending_insert h)
  exact key entries [] trivial

theorem lookup_insert_self (key : String) (value : β) (entries : List (String × β)) :
    lookup key (insert key value entries) = some value := by
  induction entries with
  | nil => simp [insert, lookup]
  | cons f rest ih =>
      unfold insert
      split
      · simp [lookup]
      · split
        · simp [lookup]
        · rename_i hne
          rw [lookup, if_neg (fun h => hne h.symm)]
          exact ih

theorem lookup_insert_of_ne {key other : String} (h : other ≠ key) (value : β)
    (entries : List (String × β)) :
    lookup other (insert key value entries) = lookup other entries := by
  induction entries with
  | nil => simp [insert, lookup, Ne.symm h]
  | cons f rest ih =>
      unfold insert
      split
      · simp [lookup, Ne.symm h]
      · split
        · rename_i heq
          subst heq
          simp [lookup, Ne.symm h]
        · simp only [lookup, ih]

/-- An inserted value is found, and other keys keep theirs. -/
theorem lookup_insert (key other : String) (value : β) (entries : List (String × β)) :
    lookup other (insert key value entries) =
      if other = key then some value else lookup other entries := by
  split
  · rename_i h
    rw [h]
    exact lookup_insert_self key value entries
  · rename_i h
    exact lookup_insert_of_ne h value entries

/-- Of entries with one key the last one stays. -/
theorem lookup_ofList (key : String) (entries : List (String × β)) :
    lookup key (ofList entries) = lookupLast key entries := by
  have step : ∀ (l acc : List (String × β)),
      lookup key (l.foldl (fun acc e => insert e.1 e.2 acc) acc) =
        (lookup key l.reverse).or (lookup key acc) := by
    intro l
    induction l with
    | nil => simp [lookup]
    | cons e l ih =>
        intro acc
        have happend : ∀ (a b : List (String × β)),
            lookup key (a ++ b) = (lookup key a).or (lookup key b) := by
          intro a b
          induction a with
          | nil => simp [lookup]
          | cons g a iha =>
              simp only [List.cons_append, lookup]
              split <;> simp [iha]
        simp only [List.foldl_cons, List.reverse_cons]
        rw [ih, happend, lookup_insert]
        by_cases h : key = e.1
        · simp [lookup, h]
        · simp [lookup, h, Ne.symm h]
  have h := step entries []
  rw [ofList, h, lookupLast]
  simp [lookup]

end Keyed
end Retrace
