import Retrace.Record.Extraction

/-!
# Numbers of objects

The walk of a tree numbers its objects from 0 on, so an object stands among the occurrences of the
tree at its own number.  Whatever lies inside an object has a greater number and lies in the tree
too; this is why the dependencies of objects have no cycle.

Main results:

- Theorem `getElem?_occurrences`: the object at an index of the tree's occurrences has that number.
- Theorem `exists_of_mem_direct`: what stands directly inside an object of the tree is a later
  object of the tree.
-/

namespace Retrace

namespace Node

/-! ## Numbering -/

mutual

/-- The objects of a node are numbered one after the other. -/
theorem map_first_occurrences : (n : Node) → ∀ first,
    (n.occurrences first).map Occurrence.first = List.range' (first + 1) n.objects
  | .primitive value => fun _ => rfl
  | .list items => map_first_occurrencesItems items
  | .map entries => map_first_occurrencesFields entries
  | .object kind className configurable configured recorded => by
      intro first
      simp only [occurrences, List.map_cons, List.map_append, map_first_occurrencesFields, objects]
      rw [List.range'_succ, show first + 1 + objectsFields configured + 1 =
        first + 1 + 1 + objectsFields configured by omega, List.range'_append_1]

/-- The occurrences in the items of a list stand at consecutive numbers. -/
theorem map_first_occurrencesItems : (items : List Node) → ∀ first,
    (occurrencesItems first items).map Occurrence.first =
      List.range' (first + 1) (objectsItems items)
  | [] => fun _ => rfl
  | n :: rest => by
      intro first
      rw [occurrencesItems, List.map_append, map_first_occurrences n,
        map_first_occurrencesItems rest, objectsItems,
        show first + n.objects + 1 = first + 1 + n.objects by omega, List.range'_append_1]

/-- The occurrences in fields stand at consecutive numbers. -/
theorem map_first_occurrencesFields : (fields : List (String × Node)) → ∀ first,
    (occurrencesFields first fields).map Occurrence.first =
      List.range' (first + 1) (objectsFields fields)
  | [] => fun _ => rfl
  | (_, n) :: rest => by
      intro first
      rw [occurrencesFields, List.map_append, map_first_occurrences n,
        map_first_occurrencesFields rest, objectsFields,
        show first + n.objects + 1 = first + 1 + n.objects by omega, List.range'_append_1]

end

/-- The objects of later fields follow those of the fields before them. -/
theorem occurrencesFields_append (a b : Fields) (first : Nat) :
    occurrencesFields first (a ++ b) =
      occurrencesFields first a ++ occurrencesFields (first + objectsFields a) b := by
  induction a generalizing first with
  | nil => simp [occurrencesFields, objectsFields]
  | cons e a ih =>
      rcases e with ⟨key, n⟩
      simp only [List.cons_append, occurrencesFields, objectsFields, ih, List.append_assoc,
        Nat.add_assoc]

theorem outermostFields_append (a b : Fields) (first : Nat) :
    outermostFields first (a ++ b) =
      outermostFields first a ++ outermostFields (first + objectsFields a) b := by
  induction a generalizing first with
  | nil => simp [outermostFields, objectsFields]
  | cons e a ih =>
      rcases e with ⟨key, n⟩
      simp only [List.cons_append, outermostFields, objectsFields, ih, List.append_assoc,
        Nat.add_assoc]

/-! ## What lies inside an object -/

mutual

/-- What lies inside an object of a node lies in the node. -/
theorem inside_occurrences : (n : Node) → ∀ first, ∀ o ∈ n.occurrences first,
    ∀ i ∈ occurrencesFields o.first o.record.fields, i ∈ n.occurrences first
  | .primitive value => by simp [occurrences]
  | .list items => inside_occurrencesItems items
  | .map entries => inside_occurrencesFields entries
  | .object kind className configurable configured recorded => by
      intro first o ho i hi
      rw [occurrences, List.mem_cons, List.mem_append] at ho ⊢
      right
      rcases ho with rfl | ho | ho
      · rwa [Record.fields, occurrencesFields_append, List.mem_append] at hi
      · exact .inl (inside_occurrencesFields configured _ o ho i hi)
      · exact .inr (inside_occurrencesFields recorded _ o ho i hi)

/-- What lies inside an object of a list lies in the list. -/
theorem inside_occurrencesItems : (items : List Node) → ∀ first,
    ∀ o ∈ occurrencesItems first items,
      ∀ i ∈ occurrencesFields o.first o.record.fields, i ∈ occurrencesItems first items
  | [] => by simp [occurrencesItems]
  | n :: rest => by
      intro first o ho i hi
      rw [occurrencesItems, List.mem_append] at ho ⊢
      rcases ho with ho | ho
      · exact .inl (inside_occurrences n _ o ho i hi)
      · exact .inr (inside_occurrencesItems rest _ o ho i hi)

/-- What lies inside an object of fields lies in the fields. -/
theorem inside_occurrencesFields : (fields : List (String × Node)) → ∀ first,
    ∀ o ∈ occurrencesFields first fields,
      ∀ i ∈ occurrencesFields o.first o.record.fields, i ∈ occurrencesFields first fields
  | [] => by simp [occurrencesFields]
  | (_, n) :: rest => by
      intro first o ho i hi
      rw [occurrencesFields, List.mem_append] at ho ⊢
      rcases ho with ho | ho
      · exact .inl (inside_occurrences n _ o ho i hi)
      · exact .inr (inside_occurrencesFields rest _ o ho i hi)

end

mutual

/-- An outermost object of a node is one of its objects. -/
theorem exists_of_mem_outermost : (n : Node) → ∀ first, ∀ k ∈ n.outermost first,
    ∃ o ∈ n.occurrences first, o.number? = some k
  | .primitive value => by simp [outermost]
  | .list items => exists_of_mem_outermostItems items
  | .map entries => exists_of_mem_outermostFields entries
  | .object kind className configurable configured recorded => by
      intro first k hk
      rw [outermost, List.mem_singleton] at hk
      rw [hk, occurrences]
      exact ⟨_, List.mem_cons_self, rfl⟩

/-- The outermost numbers of a list are numbers of its objects. -/
theorem exists_of_mem_outermostItems : (items : List Node) → ∀ first,
    ∀ k ∈ outermostItems first items, ∃ o ∈ occurrencesItems first items, o.number? = some k
  | [] => by simp [outermostItems]
  | n :: rest => by
      intro first k hk
      simp only [outermostItems, occurrencesItems, List.mem_append] at hk ⊢
      rcases hk with hk | hk
      · rcases exists_of_mem_outermost n _ k hk with ⟨o, ho, hnumber⟩
        exact ⟨o, .inl ho, hnumber⟩
      · rcases exists_of_mem_outermostItems rest _ k hk with ⟨o, ho, hnumber⟩
        exact ⟨o, .inr ho, hnumber⟩

/-- The outermost numbers of fields are numbers of their objects. -/
theorem exists_of_mem_outermostFields : (fields : List (String × Node)) → ∀ first,
    ∀ k ∈ outermostFields first fields, ∃ o ∈ occurrencesFields first fields, o.number? = some k
  | [] => by simp [outermostFields]
  | (_, n) :: rest => by
      intro first k hk
      simp only [outermostFields, occurrencesFields, List.mem_append] at hk ⊢
      rcases hk with hk | hk
      · rcases exists_of_mem_outermost n _ k hk with ⟨o, ho, hnumber⟩
        exact ⟨o, .inl ho, hnumber⟩
      · rcases exists_of_mem_outermostFields rest _ k hk with ⟨o, ho, hnumber⟩
        exact ⟨o, .inr ho, hnumber⟩

end

end Node

/-! ## Objects of a tree -/

/-- The number of an object is the one before the numbers of what it holds. -/
theorem Occurrence.first_of_number? {o : Occurrence} {n : Nat} (h : o.number? = some n) :
    o.first = n + 1 := by
  rcases o with ⟨r, first⟩
  cases first with
  | zero => simp [number?] at h
  | succ m =>
      simp only [number?, Option.some.injEq] at h
      rw [h]

namespace Record

/-- A tree has as many occurrences as objects. -/
theorem length_occurrences (root : Record) : root.occurrences.length = root.objects := by
  have h := congrArg List.length (Node.map_first_occurrencesFields root.fields 0)
  rwa [List.length_map, List.length_range'] at h

/-- The object at an index of the tree's occurrences has that number. -/
theorem getElem?_occurrences {root : Record} {n : Nat} {o : Occurrence} :
    root.occurrences[n]? = some o ↔ o ∈ root.occurrences ∧ o.number? = some n := by
  have hfirst : ∀ (m : Nat) (i : Occurrence), root.occurrences[m]? = some i →
      i.number? = some m := by
    intro m i hi
    have h := congrArg (·[m]?) (Node.map_first_occurrencesFields root.fields 0)
    have hm : m < root.objects := length_occurrences root ▸ (List.getElem?_eq_some_iff.1 hi).1
    change (root.occurrences.map Occurrence.first)[m]? = (List.range' 1 root.objects)[m]? at h
    rw [List.getElem?_map, hi, List.getElem?_range' hm] at h
    rcases i with ⟨r, first⟩
    simp only [Option.map_some, Option.some.injEq] at h
    rw [h, show 1 + 1 * m = m + 1 by omega]
    rfl
  constructor
  · intro h
    exact ⟨List.mem_of_getElem? h, hfirst n o h⟩
  · rintro ⟨hmem, hnumber⟩
    rcases List.mem_iff_getElem?.1 hmem with ⟨m, hm⟩
    have h := hfirst m o hm
    rw [hnumber, Option.some.injEq] at h
    rw [h, hm]

/-- What lies inside an object of a tree lies in the tree. -/
theorem mem_occurrences_of_inside {root : Record} {o i : Occurrence} (ho : o ∈ root.occurrences)
    (hi : i ∈ Node.occurrencesFields o.first o.record.fields) : i ∈ root.occurrences :=
  Node.inside_occurrencesFields root.fields 0 o ho i hi

/-- What stands directly inside an object of the tree is a later object of the tree. -/
theorem exists_of_mem_direct {root : Record} {o : Occurrence} {n k : Nat}
    (ho : root.occurrences[n]? = some o) (hk : k ∈ o.direct) :
    n < k ∧ ∃ i, root.occurrences[k]? = some i := by
  rw [getElem?_occurrences] at ho
  rcases Node.exists_of_mem_outermostFields _ _ k hk with ⟨i, hi, hnumber⟩
  refine ⟨?_, i, getElem?_occurrences.2 ⟨mem_occurrences_of_inside ho.1 hi, hnumber⟩⟩
  have hrange : i.first ∈ List.range' (o.first + 1) (Node.objectsFields o.record.fields) :=
    Node.map_first_occurrencesFields o.record.fields o.first ▸ List.mem_map_of_mem hi
  rw [List.mem_range'_1] at hrange
  have := Occurrence.first_of_number? ho.2
  have := Occurrence.first_of_number? hnumber
  omega

end Record
end Retrace
