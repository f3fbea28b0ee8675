import Retrace.Proofs.Countdown

/-!
# Dependency orders are post-orders

A recursive walk of a tree can list its objects as it finishes them, each right after everything
inside it.  An arrangement takes the least number that is ready instead, and numbers are given as
the walk enters objects.  Both come to the same list: what has a smaller number than the next object
of the walk and is not finished yet lies around that object, so it waits for something that lies
directly inside it.

Main results:

- Theorem `arrangeFrom_of_takes`: an arrangement follows a list that can be taken in its order.
- Theorem `Node.closes_postorder`: what a walk finishes can be taken in this order.
- Theorem `rows_eq_postorder`: the dependency order of a tree is the post-order of its objects.
-/

namespace Retrace

/-! ## Walks -/

namespace Node

mutual

/-- The objects in a node, each right after the objects inside it: items and fields are walked in
their order, and the entries of a map in the order of their keys, in which they stand. -/
def inside : Node → List Record
  | .primitive _ => []
  | .list items => insideItems items
  | .map entries => insideFields entries
  | .object kind className configurable configured recorded =>
      insideFields configured ++ insideFields recorded ++
        [⟨kind, className, configurable, configured, recorded⟩]

/-- The objects in the items of a list, each right after the objects inside it. -/
def insideItems : List Node → List Record
  | [] => []
  | n :: rest => n.inside ++ insideItems rest

/-- The objects in fields, each right after the objects inside it. -/
def insideFields : List (String × Node) → List Record
  | [] => []
  | (_, n) :: rest => n.inside ++ insideFields rest

end

mutual

/-- The objects in a node at their places, each right after the objects inside it. -/
def postorder (first : Nat) : Node → List Occurrence
  | .primitive _ => []
  | .list items => postorderItems first items
  | .map entries => postorderFields first entries
  | .object kind className configurable configured recorded =>
      postorderFields (first + 1) configured ++
        postorderFields (first + 1 + objectsFields configured) recorded ++
        [⟨⟨kind, className, configurable, configured, recorded⟩, first + 1⟩]

/-- The objects in the items of a list at their places. -/
def postorderItems (first : Nat) : List Node → List Occurrence
  | [] => []
  | n :: rest => n.postorder first ++ postorderItems (first + n.objects) rest

/-- The objects in fields at their places. -/
def postorderFields (first : Nat) : List (String × Node) → List Occurrence
  | [] => []
  | (_, n) :: rest => n.postorder first ++ postorderFields (first + n.objects) rest

end

mutual

/-- The places of the objects make no difference to their order. -/
theorem map_record_postorder : (n : Node) → ∀ first,
    (n.postorder first).map Occurrence.record = n.inside
  | .primitive value => fun _ => rfl
  | .list items => map_record_postorderItems items
  | .map entries => map_record_postorderFields entries
  | .object kind className configurable configured recorded => by
      intro first
      simp only [postorder, inside, List.map_append, List.map_cons, List.map_nil,
        map_record_postorderFields]

/-- The objects of a list in post-order are those inside it. -/
theorem map_record_postorderItems : (items : List Node) → ∀ first,
    (postorderItems first items).map Occurrence.record = insideItems items
  | [] => fun _ => rfl
  | n :: rest => by
      intro first
      rw [postorderItems, List.map_append, map_record_postorder n, map_record_postorderItems rest,
        insideItems]

/-- The objects of fields in post-order are those inside them. -/
theorem map_record_postorderFields : (fields : List (String × Node)) → ∀ first,
    (postorderFields first fields).map Occurrence.record = insideFields fields
  | [] => fun _ => rfl
  | (_, n) :: rest => by
      intro first
      rw [postorderFields, List.map_append, map_record_postorder n, map_record_postorderFields rest,
        insideFields]

end

mutual

/-- A walk finishes exactly the objects that it enters. -/
theorem postorder_perm_occurrences : (n : Node) → ∀ first,
    (n.postorder first).Perm (n.occurrences first)
  | .primitive value => fun _ => .nil
  | .list items => postorderItems_perm_occurrencesItems items
  | .map entries => postorderFields_perm_occurrencesFields entries
  | .object kind className configurable configured recorded => by
      intro first
      rw [postorder, occurrences]
      exact List.perm_append_comm.trans
        (.cons _ ((postorderFields_perm_occurrencesFields configured _).append
          (postorderFields_perm_occurrencesFields recorded _)))

theorem postorderItems_perm_occurrencesItems : (items : List Node) → ∀ first,
    (postorderItems first items).Perm (occurrencesItems first items)
  | [] => fun _ => .nil
  | n :: rest => fun first => (postorder_perm_occurrences n first).append
      (postorderItems_perm_occurrencesItems rest _)

theorem postorderFields_perm_occurrencesFields : (fields : List (String × Node)) → ∀ first,
    (postorderFields first fields).Perm (occurrencesFields first fields)
  | [] => fun _ => .nil
  | (_, n) :: rest => fun first => (postorder_perm_occurrences n first).append
      (postorderFields_perm_occurrencesFields rest _)

end

end Node

/-- The objects below the root of a tree, each right after the objects inside it. -/
def Record.postorder (r : Record) : List Occurrence :=
  Node.postorderFields 0 r.fields

/-! ## Lists that can be taken in their order -/

/-- The number of an object below the root. -/
def Occurrence.number (o : Occurrence) : Nat :=
  o.first - 1

/-- Whether every object that is taken after another one although its number is smaller misses
something that is not taken yet. -/
def Waits (o : Occurrence) (rest : List Occurrence) : Prop :=
  ∀ a ∈ rest, a.number < o.number → ∃ k ∈ a.direct, k ∈ (o :: rest).map Occurrence.number

/-- Whether objects can be taken in this order once the numbers `done` are taken: what is directly
inside an object is taken before it, and no object with a smaller number could be taken instead. -/
def Takes (done : List Nat) : List Occurrence → Prop
  | [] => True
  | o :: rest => (∀ k ∈ o.direct, k ∈ done) ∧ Waits o rest ∧ Takes (done ++ [o.number]) rest

/-- Objects may follow among which those with smaller numbers miss something. -/
theorem Waits.append {o : Occurrence} {xs ys : List Occurrence} (hxs : Waits o xs)
    (hys : ∀ a ∈ ys, a.number < o.number →
      ∃ k ∈ a.direct, k ∈ (o :: (xs ++ ys)).map Occurrence.number) : Waits o (xs ++ ys) := by
  intro a ha hless
  rcases List.mem_append.1 ha with ha | ha
  · obtain ⟨k, hk, hmem⟩ := hxs a ha hless
    refine ⟨k, hk, ?_⟩
    rw [← List.cons_append, List.map_append]
    exact List.mem_append_left _ hmem
  · exact hys a ha hless

/-- Objects with greater numbers may be taken afterwards. -/
theorem Takes.append {done : List Nat} {xs ys : List Occurrence} (hxs : Takes done xs)
    (hys : Takes (done ++ xs.map Occurrence.number) ys)
    (hlt : ∀ x ∈ xs, ∀ y ∈ ys, x.number < y.number) : Takes done (xs ++ ys) := by
  induction xs generalizing done with
  | nil => simpa using hys
  | cons x xs ih =>
      obtain ⟨hready, hwaits, hrest⟩ := hxs
      rw [List.forall_mem_cons] at hlt
      refine ⟨hready, hwaits.append fun a ha hless => ?_, ih hrest (by simpa using hys) hlt.2⟩
      have := hlt.1 a ha
      omega

/-- Objects can be taken with an object around them at the end; it waits for the last of them. -/
theorem Takes.concat {done : List Nat} {xs : List Occurrence} {o : Occurrence}
    (hxs : Takes done xs) (hdirect : ∀ k ∈ o.direct, k ∈ done ++ xs.map Occurrence.number)
    (hlast : ∀ x, xs.getLast? = some x → x.number ∈ o.direct) : Takes done (xs ++ [o]) := by
  induction xs generalizing done with
  | nil => exact ⟨by simpa using hdirect, by simp [Waits], trivial⟩
  | cons x xs ih =>
      obtain ⟨hready, hwaits, hrest⟩ := hxs
      have hlater : ∀ y, xs.getLast? = some y → y.number ∈ o.direct := by
        intro y hy
        apply hlast
        rw [List.getLast?_cons, hy, Option.getD_some]
      refine ⟨hready, hwaits.append fun a ha _ => ?_, ih hrest (by simpa using hdirect) hlater⟩
      rw [List.mem_singleton.1 ha]
      obtain ⟨y, hy⟩ := Option.isSome_iff_exists.1
        (List.getLast?_isSome.2 (List.cons_ne_nil x xs))
      refine ⟨y.number, hlast y hy, List.mem_map_of_mem ?_⟩
      rw [← List.cons_append]
      exact List.mem_append_left _ (List.mem_of_getLast? hy)

/-- An arrangement follows objects that can be taken in their order, if these are all that is
left. -/
theorem arrangeFrom_of_takes {dependencies : List (List Nat)} {done : List Nat}
    {rest : List Occurrence} (htakes : Takes done rest)
    (hdirect : ∀ o ∈ rest, dependencies[o.number]? = some o.direct)
    (hall : ∀ n, n < dependencies.length → n ∈ done ∨ n ∈ rest.map Occurrence.number)
    (hnodup : (done ++ rest.map Occurrence.number).Nodup) :
    arrangeFrom dependencies done rest.length = done ++ rest.map Occurrence.number := by
  induction rest generalizing done with
  | nil => simp [arrangeFrom]
  | cons o rest ih =>
      obtain ⟨hready, hwaits, hrest⟩ := htakes
      rw [List.forall_mem_cons] at hdirect
      have hsplit : done ++ (o :: rest).map Occurrence.number =
          done ++ [o.number] ++ rest.map Occurrence.number := by simp
      have hleft : ∀ k ∈ (o :: rest).map Occurrence.number, k ∉ done := by
        intro k hk hdone
        exact (List.nodup_append.1 hnodup).2.2 k hdone k hk rfl
      have hnext : nextReady dependencies done = some o.number := by
        rw [nextReady, List.find?_range_eq_some]
        refine ⟨?_, ?_, fun n hn => ?_⟩
        · simpa [hdirect.1, hleft o.number (by simp)] using hready
        · exact List.mem_range.2 (List.getElem?_eq_some_iff.1 hdirect.1).1
        · -- a smaller number is taken already, or its object waits for something
          have hbound := (List.getElem?_eq_some_iff.1 hdirect.1).1
          rcases hall n (Nat.lt_trans hn hbound) with hdone | hn'
          · simp [hdone]
          · obtain ⟨a, ha, rfl⟩ := List.mem_map.1 hn'
            rcases List.mem_cons.1 ha with rfl | ha
            · omega
            · obtain ⟨k, hk, hmem⟩ := hwaits a ha hn
              have hmissing := hleft k hmem
              simp only [hdirect.2 a ha, Option.getD_some, Bool.not_eq_eq_eq_not, Bool.not_true,
                Bool.and_eq_false_iff, List.all_eq_false]
              exact .inr ⟨k, hk, by simpa using hmissing⟩
      rw [List.length_cons, arrangeFrom, hnext, hsplit]
      refine ih hrest hdirect.2 (fun n hn => ?_) (by rwa [← hsplit])
      rcases hall n hn with hdone | hn
      · exact .inl (List.mem_append_left _ hdone)
      · rw [List.map_cons, List.mem_cons] at hn
        rcases hn with rfl | hn
        · exact .inl (by simp)
        · exact .inr hn

/-! ## Walks can be taken in their order -/

namespace Node

/-- Whether objects can be taken in their order, whatever is taken before, and end with an outermost
one. -/
structure Closes (outermost : List Nat) (objects : List Occurrence) : Prop where
  takes : ∀ done, Takes done objects
  last : ∀ o, objects.getLast? = some o → o.number ∈ outermost

theorem Closes.nil : Closes [] [] :=
  ⟨fun _ => trivial, by simp⟩

/-- Objects with greater numbers may follow in their order. -/
theorem Closes.append {out out' : List Nat} {xs ys : List Occurrence} (hxs : Closes out xs)
    (hys : Closes out' ys) (hlt : ∀ x ∈ xs, ∀ y ∈ ys, x.number < y.number) :
    Closes (out ++ out') (xs ++ ys) := by
  refine ⟨fun done => (hxs.takes done).append (hys.takes _) hlt, fun o ho => ?_⟩
  rw [List.getLast?_append, Option.or_eq_some_iff] at ho
  rcases ho with ho | ⟨-, ho⟩
  · exact List.mem_append_right _ (hys.last o ho)
  · exact List.mem_append_left _ (hxs.last o ho)

/-- An object may be taken once all that is directly inside it is taken. -/
theorem Closes.around {o : Occurrence} {xs : List Occurrence} (hxs : Closes o.direct xs)
    (hdirect : ∀ k ∈ o.direct, k ∈ xs.map Occurrence.number) : Closes [o.number] (xs ++ [o]) := by
  refine ⟨fun done => (hxs.takes done).concat ?_ hxs.last, fun x hx => ?_⟩
  · intro k hk
    exact List.mem_append_right _ (hdirect k hk)
  · rw [List.getLast?_concat, Option.some.injEq] at hx
    simp [hx]

/-- Objects that are numbered in a row have numbers of that row. -/
theorem number_bounds {objects occurrences : List Occurrence} {first size : Nat}
    (hperm : objects.Perm occurrences)
    (hfirst : occurrences.map Occurrence.first = List.range' (first + 1) size) :
    ∀ o ∈ objects, first ≤ o.number ∧ o.number < first + size := by
  intro o ho
  have hmem : o.first ∈ List.range' (first + 1) size :=
    hfirst ▸ List.mem_map_of_mem (hperm.mem_iff.1 ho)
  rw [List.mem_range'_1] at hmem
  rw [Occurrence.number]
  omega

/-- The numbers inside a node are those from its first one on. -/
theorem number_bounds_postorder (n : Node) (first : Nat) :
    ∀ o ∈ n.postorder first, first ≤ o.number ∧ o.number < first + n.objects :=
  number_bounds (postorder_perm_occurrences n first) (map_first_occurrences n first)

theorem number_bounds_postorderItems (items : List Node) (first : Nat) :
    ∀ o ∈ postorderItems first items, first ≤ o.number ∧ o.number < first + objectsItems items :=
  number_bounds (postorderItems_perm_occurrencesItems items first)
    (map_first_occurrencesItems items first)

theorem number_bounds_postorderFields (fields : Fields) (first : Nat) :
    ∀ o ∈ postorderFields first fields,
      first ≤ o.number ∧ o.number < first + objectsFields fields :=
  number_bounds (postorderFields_perm_occurrencesFields fields first)
    (map_first_occurrencesFields fields first)

/-- The post-order of later fields follows that of the fields before them. -/
theorem postorderFields_append (a b : Fields) (first : Nat) :
    postorderFields first (a ++ b) =
      postorderFields first a ++ postorderFields (first + objectsFields a) b := by
  induction a generalizing first with
  | nil => simp [postorderFields, objectsFields]
  | cons e a ih =>
      rcases e with ⟨key, n⟩
      simp only [List.cons_append, postorderFields, objectsFields, ih, List.append_assoc,
        Nat.add_assoc]

/-- A walk of the fields of an object finishes what is directly inside the object. -/
theorem mem_postorder_of_direct {o : Occurrence} {k : Nat} (hk : k ∈ o.direct) :
    k ∈ (postorderFields o.first o.record.fields).map Occurrence.number := by
  obtain ⟨i, hi, hnumber⟩ := exists_of_mem_outermostFields _ _ k hk
  have hfirst := Occurrence.first_of_number? hnumber
  refine List.mem_map.2
    ⟨i, (postorderFields_perm_occurrencesFields _ _).mem_iff.2 hi, ?_⟩
  rw [Occurrence.number, hfirst, Nat.add_sub_cancel]

mutual

/-- What a walk of a node finishes can be taken in this order. -/
theorem closes_postorder : (n : Node) → ∀ first,
    Closes (n.outermost first) (n.postorder first)
  | .primitive value => fun _ => .nil
  | .list items => closes_postorderItems items
  | .map entries => closes_postorderFields entries
  | .object kind className configurable configured recorded => by
      intro first
      let o : Occurrence := ⟨⟨kind, className, configurable, configured, recorded⟩, first + 1⟩
      have hfields : postorderFields (first + 1) configured ++
          postorderFields (first + 1 + objectsFields configured) recorded =
            postorderFields o.first o.record.fields :=
        (postorderFields_append configured recorded _).symm
      have hclosed : Closes o.direct (postorderFields o.first o.record.fields) := by
        rw [← hfields, Occurrence.direct, Record.fields, outermostFields_append]
        refine (closes_postorderFields configured _).append (closes_postorderFields recorded _) ?_
        intro x hx y hy
        have := number_bounds_postorderFields configured (first + 1) x hx
        have := number_bounds_postorderFields recorded (first + 1 + objectsFields configured) y hy
        omega
      rw [postorder, hfields]
      exact hclosed.around fun k => mem_postorder_of_direct

/-- The items of a list can be taken in post-order. -/
theorem closes_postorderItems : (items : List Node) → ∀ first,
    Closes (outermostItems first items) (postorderItems first items)
  | [] => fun _ => .nil
  | n :: rest => by
      intro first
      refine (closes_postorder n first).append (closes_postorderItems rest _) ?_
      intro x hx y hy
      have := number_bounds_postorder n _ x hx
      have := number_bounds_postorderItems rest _ y hy
      omega

/-- The values of fields can be taken in post-order. -/
theorem closes_postorderFields : (fields : List (String × Node)) → ∀ first,
    Closes (outermostFields first fields) (postorderFields first fields)
  | [] => fun _ => .nil
  | (_, n) :: rest => by
      intro first
      refine (closes_postorder n first).append (closes_postorderFields rest _) ?_
      intro x hx y hy
      have := number_bounds_postorder n _ x hx
      have := number_bounds_postorderFields rest _ y hy
      omega

end

end Node

/-! ## Dependency orders of trees -/

namespace DependencyOrder

theorem number_of_mem {root : Record} {o : Occurrence} (ho : o ∈ root.occurrences) :
    root.occurrences[o.number]? = some o := by
  have hfirst : o.first ∈ List.range' (0 + 1) (Node.objectsFields root.fields) :=
    Node.map_first_occurrencesFields root.fields 0 ▸ List.mem_map_of_mem ho
  rw [List.mem_range'_1] at hfirst
  refine Record.getElem?_occurrences.2 ⟨ho, ?_⟩
  rcases o with ⟨r, first⟩
  cases first with
  | zero => simp at hfirst
  | succ n => rfl

/-- The post-order has every object once. -/
theorem postorder_perm (root : Record) : root.postorder.Perm root.occurrences :=
  Node.postorderFields_perm_occurrencesFields root.fields 0

/-- No two objects in post-order have one number. -/
theorem nodup_numbers (root : Record) : (root.postorder.map Occurrence.number).Nodup := by
  have hnodup : (root.occurrences.map Occurrence.number).Nodup := by
    have hnumbers : root.occurrences.map Occurrence.number =
        (root.occurrences.map Occurrence.first).map (· - 1) := by
      simp [Occurrence.number, Function.comp_def]
    rw [hnumbers, Record.occurrences, Node.map_first_occurrencesFields, List.map_sub_range']
    · exact List.nodup_range'
    · omega
  exact ((postorder_perm root).map _).nodup_iff.2 hnodup

/-- The numbers of the objects of a tree are arranged in post-order. -/
theorem sequence_eq_postorder (root : Record) :
    (ofRecord root).sequence = root.postorder.map Occurrence.number := by
  have hlength : root.postorder.length = (root.occurrences.map Occurrence.direct).length :=
    (postorder_perm root).length_eq.trans (List.length_map _).symm
  have hdirect : ∀ o ∈ root.postorder,
      (root.occurrences.map Occurrence.direct)[o.number]? = some o.direct := by
    intro o ho
    rw [List.getElem?_map, number_of_mem ((postorder_perm root).mem_iff.1 ho), Option.map_some]
  have hall : ∀ n, n < (root.occurrences.map Occurrence.direct).length →
      n ∈ [] ∨ n ∈ root.postorder.map Occurrence.number := by
    intro n hn
    rw [List.length_map] at hn
    have ho := Record.getElem?_occurrences.1 (List.getElem?_eq_getElem hn)
    refine .inr (List.mem_map.2 ⟨_, (postorder_perm root).mem_iff.2 ho.1, ?_⟩)
    rw [Occurrence.number, Occurrence.first_of_number? ho.2, Nat.add_sub_cancel]
  have htakes : Takes [] root.postorder := (Node.closes_postorderFields root.fields 0).takes []
  rw [ofRecord, arrange, ← hlength]
  exact arrangeFrom_of_takes htakes hdirect hall (nodup_numbers root)

/-- The object at a position is the one that the walk finishes there. -/
theorem get?_eq_postorder (root : Record) (p : Nat) :
    (ofRecord root).get? p = root.postorder[p]? := by
  rw [get?, sequence_eq_postorder, List.getElem?_map]
  cases ho : root.postorder[p]? with
  | none => rfl
  | some o => exact number_of_mem ((postorder_perm root).mem_iff.1 (List.mem_of_getElem? ho))

/-- The dependency order of a tree has its objects in post-order, as a walk that knows nothing of
numbers finishes them, and every object of the tree exactly once.  Counting down from the edges of
the tree gives this order too, and does not end before it is complete. -/
theorem rows_eq_postorder (root : Record) :
    (ofRecord root).rows = root.postorder.mapIdx (fun p o => (p, o)) ∧
      root.postorder.map Occurrence.record = Node.insideFields root.fields ∧
      root.postorder.Perm root.occurrences ∧ (root.postorder.map Occurrence.number).Nodup ∧
      let edges := root.occurrences.map Occurrence.direct
      let counted := Countdown.run edges edges.length (.start edges)
      counted.taken = root.postorder.map Occurrence.number ∧ counted.ready = [] := by
  refine ⟨?_, Node.map_record_postorderFields root.fields 0, postorder_perm root,
    nodup_numbers root, ?_⟩
  · apply List.ext_getElem?
    intro p
    rw [getElem?_rows, get?_eq_postorder, List.getElem?_mapIdx]
  · rw [← sequence_eq_postorder]
    exact Countdown.taken_run _

end DependencyOrder
end Retrace
