import Mathlib.Data.List.Nodup
import Mathlib.Data.List.Pairwise
import Retrace.Proofs.Discovery

/-!
# Objects directly inside an object

The objects directly inside an object are those that are found in its fields, in lists and in maps,
but not in other objects.  A dependency order tells for every object the positions of these objects,
in the order of its fields.  The walk that finishes objects from inside out finishes them in this
order, so the positions increase, and the object around them follows at the end.  Every object is
directly inside exactly one other object, or else directly below the root.

Main results:

- Theorem `Node.nearestAt_perm`: an object is either an outermost one or directly inside exactly one
  object.
- Theorem `Node.nearest_concat_sublist`: a walk finishes what is directly inside an object in its
  order, and then the object.
- Theorem `DependencyOrder.dependencies_exact`: what the dependencies in an order are.
-/

namespace Retrace

namespace Node

mutual

/-- The objects in a node that are in no other object of it. -/
def nearest : Node → List Record
  | .primitive _ => []
  | .list items => nearestItems items
  | .map entries => nearestFields entries
  | .object kind className configurable configured recorded =>
      [⟨kind, className, configurable, configured, recorded⟩]

/-- The objects in the items of a list that are in no other object of them. -/
def nearestItems : List Node → List Record
  | [] => []
  | n :: rest => n.nearest ++ nearestItems rest

/-- The objects in fields that are in no other object of them. -/
def nearestFields : List (String × Node) → List Record
  | [] => []
  | (_, n) :: rest => n.nearest ++ nearestFields rest

end

mutual

/-- The objects in a node that are in no other object of it, at their places. -/
def nearestAt (first : Nat) : Node → List Occurrence
  | .primitive _ => []
  | .list items => nearestItemsAt first items
  | .map entries => nearestFieldsAt first entries
  | .object kind className configurable configured recorded =>
      [⟨⟨kind, className, configurable, configured, recorded⟩, first + 1⟩]

/-- The objects in the items of a list that are in no other object of them, at their places. -/
def nearestItemsAt (first : Nat) : List Node → List Occurrence
  | [] => []
  | n :: rest => n.nearestAt first ++ nearestItemsAt (first + n.objects) rest

/-- The objects in fields that are in no other object of them, at their places. -/
def nearestFieldsAt (first : Nat) : List (String × Node) → List Occurrence
  | [] => []
  | (_, n) :: rest => n.nearestAt first ++ nearestFieldsAt (first + n.objects) rest

end

end Node

/-- The objects directly inside an object, at their places. -/
def Occurrence.nearest (o : Occurrence) : List Occurrence :=
  Node.nearestFieldsAt o.first o.record.fields

namespace Node

mutual

/-- Their places make no difference to the objects. -/
theorem map_record_nearestAt : (n : Node) → ∀ first,
    (n.nearestAt first).map Occurrence.record = n.nearest
  | .primitive _ => fun _ => rfl
  | .list items => map_record_nearestItemsAt items
  | .map entries => map_record_nearestFieldsAt entries
  | .object .. => fun _ => rfl

/-- The nearest objects of a list are those with their numbers. -/
theorem map_record_nearestItemsAt : (items : List Node) → ∀ first,
    (nearestItemsAt first items).map Occurrence.record = nearestItems items
  | [] => fun _ => rfl
  | n :: rest => fun first => by
      rw [nearestItemsAt, List.map_append, map_record_nearestAt n, map_record_nearestItemsAt rest,
        nearestItems]

theorem map_record_nearestFieldsAt : (fields : List (String × Node)) → ∀ first,
    (nearestFieldsAt first fields).map Occurrence.record = nearestFields fields
  | [] => fun _ => rfl
  | (_, n) :: rest => fun first => by
      rw [nearestFieldsAt, List.map_append, map_record_nearestAt n,
        map_record_nearestFieldsAt rest, nearestFields]

end

mutual

/-- The numbers of the objects are the numbers of the outermost objects. -/
theorem map_number_nearestAt : (n : Node) → ∀ first,
    (n.nearestAt first).map Occurrence.number = n.outermost first
  | .primitive _ => fun _ => rfl
  | .list items => map_number_nearestItemsAt items
  | .map entries => map_number_nearestFieldsAt entries
  | .object .. => fun _ => rfl

/-- The nearest objects of a list have the outermost numbers. -/
theorem map_number_nearestItemsAt : (items : List Node) → ∀ first,
    (nearestItemsAt first items).map Occurrence.number = outermostItems first items
  | [] => fun _ => rfl
  | n :: rest => fun first => by
      rw [nearestItemsAt, List.map_append, map_number_nearestAt n, map_number_nearestItemsAt rest,
        outermostItems]

theorem map_number_nearestFieldsAt : (fields : List (String × Node)) → ∀ first,
    (nearestFieldsAt first fields).map Occurrence.number = outermostFields first fields
  | [] => fun _ => rfl
  | (_, n) :: rest => fun first => by
      rw [nearestFieldsAt, List.map_append, map_number_nearestAt n,
        map_number_nearestFieldsAt rest, outermostFields]

end

/-- The nearest objects of later fields follow those of the fields before them. -/
theorem nearestFieldsAt_append (a b : Fields) (first : Nat) :
    nearestFieldsAt first (a ++ b) =
      nearestFieldsAt first a ++ nearestFieldsAt (first + objectsFields a) b := by
  induction a generalizing first with
  | nil => simp [nearestFieldsAt, objectsFields]
  | cons e a ih =>
      rcases e with ⟨key, n⟩
      simp only [List.cons_append, nearestFieldsAt, objectsFields, ih, List.append_assoc,
        Nat.add_assoc]

/-! ## Every object in one place -/

/-- Parts in which every object has one place make a whole in which every object has one. -/
theorem perm_append {out out' objects objects' : List Occurrence}
    (h : (out ++ objects.flatMap Occurrence.nearest).Perm objects)
    (h' : (out' ++ objects'.flatMap Occurrence.nearest).Perm objects') :
    (out ++ out' ++ (objects ++ objects').flatMap Occurrence.nearest).Perm
      (objects ++ objects') := by
  rw [List.flatMap_append, List.append_assoc]
  refine .trans ?_ (h.append h')
  rw [List.append_assoc]
  refine .append_left out ?_
  rw [← List.append_assoc, ← List.append_assoc]
  exact .append_right _ List.perm_append_comm

mutual

/-- The objects of a node are those that are in no other object of it and those directly inside one
of its objects, each of them once. -/
theorem nearestAt_perm : (n : Node) → ∀ first,
    (n.nearestAt first ++ (n.occurrences first).flatMap Occurrence.nearest).Perm
      (n.occurrences first)
  | .primitive _ => fun _ => .nil
  | .list items => nearestItemsAt_perm items
  | .map entries => nearestFieldsAt_perm entries
  | .object _ _ _ configured recorded => fun first => by
      have hfields := perm_append (nearestFieldsAt_perm configured (first + 1))
        (nearestFieldsAt_perm recorded (first + 1 + objectsFields configured))
      rw [← nearestFieldsAt_append] at hfields
      rw [nearestAt, occurrences, List.flatMap_cons]
      exact .cons _ hfields

/-- Every object of a list is nearest to the list or to one object in it. -/
theorem nearestItemsAt_perm : (items : List Node) → ∀ first,
    (nearestItemsAt first items ++ (occurrencesItems first items).flatMap Occurrence.nearest).Perm
      (occurrencesItems first items)
  | [] => fun _ => .nil
  | n :: rest => fun first =>
      perm_append (nearestAt_perm n first) (nearestItemsAt_perm rest (first + n.objects))

theorem nearestFieldsAt_perm : (fields : List (String × Node)) → ∀ first,
    (nearestFieldsAt first fields ++
      (occurrencesFields first fields).flatMap Occurrence.nearest).Perm
        (occurrencesFields first fields)
  | [] => fun _ => .nil
  | (_, n) :: rest => fun first =>
      perm_append (nearestAt_perm n first) (nearestFieldsAt_perm rest (first + n.objects))

end

/-! ## In the order of a walk -/

mutual

/-- A walk finishes outermost objects in their order. -/
theorem nearestAt_sublist : (n : Node) → ∀ first, (n.nearestAt first).Sublist (n.postorder first)
  | .primitive _ => fun _ => .slnil
  | .list items => nearestItemsAt_sublist items
  | .map entries => nearestFieldsAt_sublist entries
  | .object .. => fun _ => List.sublist_append_right _ _

/-- The nearest objects of a list stand in post-order. -/
theorem nearestItemsAt_sublist : (items : List Node) → ∀ first,
    (nearestItemsAt first items).Sublist (postorderItems first items)
  | [] => fun _ => .slnil
  | n :: rest => fun first =>
      (nearestAt_sublist n first).append (nearestItemsAt_sublist rest (first + n.objects))

theorem nearestFieldsAt_sublist : (fields : List (String × Node)) → ∀ first,
    (nearestFieldsAt first fields).Sublist (postorderFields first fields)
  | [] => fun _ => .slnil
  | (_, n) :: rest => fun first =>
      (nearestAt_sublist n first).append (nearestFieldsAt_sublist rest (first + n.objects))

end

mutual

/-- A walk finishes what is directly inside an object in its order, and then the object. -/
theorem nearest_concat_sublist : (n : Node) → ∀ first, ∀ o ∈ n.postorder first,
    (o.nearest ++ [o]).Sublist (n.postorder first)
  | .primitive _ => by simp [postorder]
  | .list items => nearest_concat_sublistItems items
  | .map entries => nearest_concat_sublistFields entries
  | .object _ _ _ configured recorded => by
      intro first o ho
      rw [postorder, List.mem_append, List.mem_append, List.mem_singleton] at ho
      rw [postorder]
      rcases ho with (ho | ho) | rfl
      · exact (nearest_concat_sublistFields configured _ o ho).trans
          ((List.sublist_append_left _ _).trans (List.sublist_append_left _ _))
      · exact (nearest_concat_sublistFields recorded _ o ho).trans
          ((List.sublist_append_right _ _).trans (List.sublist_append_left _ _))
      · rw [← postorderFields_append]
        exact (nearestFieldsAt_sublist _ _).append (.refl _)

/-- In a list every object stands behind its nearest ones. -/
theorem nearest_concat_sublistItems : (items : List Node) → ∀ first,
    ∀ o ∈ postorderItems first items, (o.nearest ++ [o]).Sublist (postorderItems first items)
  | [] => by simp [postorderItems]
  | n :: rest => by
      intro first o ho
      rw [postorderItems, List.mem_append] at ho
      rcases ho with ho | ho
      · exact (nearest_concat_sublist n _ o ho).trans (List.sublist_append_left _ _)
      · exact (nearest_concat_sublistItems rest _ o ho).trans (List.sublist_append_right _ _)

/-- In fields every object stands behind its nearest ones. -/
theorem nearest_concat_sublistFields : (fields : List (String × Node)) → ∀ first,
    ∀ o ∈ postorderFields first fields, (o.nearest ++ [o]).Sublist (postorderFields first fields)
  | [] => by simp [postorderFields]
  | (_, n) :: rest => by
      intro first o ho
      rw [postorderFields, List.mem_append] at ho
      rcases ho with ho | ho
      · exact (nearest_concat_sublist n _ o ho).trans (List.sublist_append_left _ _)
      · exact (nearest_concat_sublistFields rest _ o ho).trans (List.sublist_append_right _ _)

end

end Node

/-! ## Positions -/

namespace DependencyOrder

variable {root : Record} {o : Occurrence} {p : Nat}

/-- The number of an object leads to its position. -/
theorem positionOfNumber?_of_get? (h : (ofRecord root).get? p = some o) :
    (ofRecord root).positionOfNumber? o.number = some p := by
  obtain ⟨n, hnumber, hposition⟩ := Option.bind_eq_some_iff.1 (get?_eq_some_iff.1 h).2
  rwa [Occurrence.number, Occurrence.first_of_number? hnumber, Nat.add_sub_cancel]

/-- An object with a position is one of the tree. -/
theorem mem_postorder_of_get? (h : (ofRecord root).get? p = some o) : o ∈ root.postorder := by
  rw [get?_eq_postorder] at h
  exact List.mem_of_getElem? h

/-- What is directly inside an object of a tree is an object of the tree. -/
theorem mem_occurrences_of_nearest {i : Occurrence} (ho : o ∈ root.occurrences)
    (hi : i ∈ o.nearest) : i ∈ root.occurrences :=
  (Node.nearestFieldsAt_perm root.fields 0).mem_iff.1
    (List.mem_append_right _ (List.mem_flatMap.2 ⟨o, ho, hi⟩))

/-- The dependencies of an object are the positions of the objects directly inside it. -/
theorem dependencies_eq_filterMap (order : DependencyOrder) (o : Occurrence) :
    order.dependencies o = o.nearest.filterMap fun i => order.positionOfNumber? i.number := by
  have hdirect : o.direct = o.nearest.map Occurrence.number :=
    (Node.map_number_nearestFieldsAt o.record.fields o.first).symm
  rw [dependencies, hdirect, List.filterMap_map]
  rfl

/-- At the positions that an object depends on stand the objects directly inside it. -/
theorem map_get?_dependencies (ho : o ∈ root.occurrences) :
    ((ofRecord root).dependencies o).map (ofRecord root).get? = o.nearest.map some := by
  have hinside : ∀ i ∈ o.nearest, i ∈ root.occurrences := fun i =>
    mem_occurrences_of_nearest ho
  rw [dependencies_eq_filterMap]
  generalize o.nearest = objects at hinside
  induction objects with
  | nil => rfl
  | cons i rest ih =>
      rw [List.forall_mem_cons] at hinside
      obtain ⟨q, hq⟩ := exists_get? hinside.1
      simp only [List.filterMap_cons, positionOfNumber?_of_get? hq, List.map_cons, hq,
        ih hinside.2]

/-- An object has one position only. -/
theorem eq_of_get? {q : Nat} (hp : (ofRecord root).get? p = some o)
    (hq : (ofRecord root).get? q = some o) : p = q :=
  Option.some.inj ((positionOfNumber?_of_get? hp).symm.trans (positionOfNumber?_of_get? hq))

/-- The dependencies of an object are the positions of its nearest objects. -/
theorem mem_dependencies_iff {i : Occurrence} (ho : o ∈ root.occurrences)
    (hp : (ofRecord root).get? p = some i) :
    p ∈ (ofRecord root).dependencies o ↔ i ∈ o.nearest := by
  have hmap := map_get?_dependencies ho
  constructor
  · intro hmem
    have hfound : some i ∈ o.nearest.map some := by
      rw [← hmap, ← hp]
      exact List.mem_map_of_mem hmem
    obtain ⟨j, hj, hji⟩ := List.mem_map.1 hfound
    exact Option.some.inj hji ▸ hj
  · intro hmem
    have hfound : some i ∈ ((ofRecord root).dependencies o).map (ofRecord root).get? := by
      rw [hmap]
      exact List.mem_map_of_mem hmem
    obtain ⟨q, hq, hqi⟩ := List.mem_map.1 hfound
    exact eq_of_get? hqi hp ▸ hq

/-- A part of a list has increasing places in it. -/
theorem pairwise_filterMap_idxOf? {part whole : List Nat} (h : part.Sublist whole)
    (hnodup : whole.Nodup) : (part.filterMap whole.idxOf?).Pairwise (· < ·) := by
  have hwhole : whole.filterMap whole.idxOf? = List.range whole.length := by
    apply List.ext_getElem?
    intro i
    rw [getElem?_filterMap_of_isSome fun n hn => List.isSome_idxOf?.2 hn]
    rcases Nat.lt_or_ge i whole.length with hi | hi
    · rw [List.getElem?_range hi, List.getElem?_eq_getElem hi, Option.bind_some,
        List.idxOf?_eq_some_iff]
      refine ⟨hi, rfl, fun j hj heq => ?_⟩
      have := (List.getElem_inj hnodup).1 heq
      omega
    · rw [List.getElem?_eq_none hi, List.getElem?_eq_none (by simpa using hi), Option.bind_none]
  exact (hwhole ▸ List.pairwise_lt_range).sublist (h.filterMap _)

/-- The positions that an object depends on increase, up to its own. -/
theorem pairwise_dependencies (h : (ofRecord root).get? p = some o) :
    ((ofRecord root).dependencies o ++ [p]).Pairwise (· < ·) := by
  have hpart : ((o.nearest ++ [o]).map Occurrence.number).Sublist (ofRecord root).sequence := by
    rw [sequence_eq_postorder]
    exact (Node.nearest_concat_sublistFields root.fields 0 o (mem_postorder_of_get? h)).map _
  have hpositions : (ofRecord root).dependencies o ++ [p] =
      ((o.nearest ++ [o]).map Occurrence.number).filterMap (ofRecord root).sequence.idxOf? := by
    have hlast : (ofRecord root).sequence.idxOf? o.number = some p := positionOfNumber?_of_get? h
    rw [dependencies_eq_filterMap, List.filterMap_map, List.filterMap_append]
    simp only [List.filterMap_cons, List.filterMap_nil, Function.comp_def, hlast]
    rfl
  rw [hpositions]
  exact pairwise_filterMap_idxOf? hpart (nodup_arrange _)

theorem nodup_occurrences (root : Record) : root.occurrences.Nodup :=
  (postorder_perm root).nodup_iff.1 (List.Nodup.of_map Occurrence.number (nodup_numbers root))

/-- An object of a tree that is not directly below the root is directly inside exactly one object,
and one that is directly below the root is inside none. -/
theorem existsUnique_nearest (ho : o ∈ root.occurrences) :
    (o ∉ (Occurrence.root root).nearest → ∃! i, i ∈ root.occurrences ∧ o ∈ i.nearest) ∧
      (o ∈ (Occurrence.root root).nearest → ∀ i ∈ root.occurrences, o ∉ i.nearest) := by
  have hperm : ((Occurrence.root root).nearest ++
      root.occurrences.flatMap Occurrence.nearest).Perm root.occurrences :=
    Node.nearestFieldsAt_perm root.fields 0
  have hnodup := hperm.nodup_iff.2 (nodup_occurrences root)
  rw [List.nodup_append', List.nodup_flatMap] at hnodup
  obtain ⟨-, ⟨-, hapart⟩, hbelow⟩ := hnodup
  constructor
  · intro hout
    rcases List.mem_append.1 (hperm.mem_iff.2 ho) with hin | hin
    · exact absurd hin hout
    · obtain ⟨i, hi, hoi⟩ := List.mem_flatMap.1 hin
      refine ⟨i, ⟨hi, hoi⟩, ?_⟩
      rintro j ⟨hj, hoj⟩
      by_contra hne
      have hsymm : Std.Symm (Function.onFun List.Disjoint Occurrence.nearest) :=
        ⟨fun _ _ h a ha hb => h hb ha⟩
      exact hapart.forall hj hi hne hoj hoi
  · intro hin i hi hoi
    exact hbelow hin (List.mem_flatMap.2 ⟨i, hi, hoi⟩)

/-! ## Translating indices -/

/-- The table of positions takes what an object depends on to positions. -/
theorem map_positionTable (ho : o ∈ root.occurrences) :
    o.direct.map (Discovery.positionTable (ofRecord root).sequence) =
      (ofRecord root).dependencies o := by
  have hinside : ∀ i ∈ o.nearest, i ∈ root.occurrences := fun i => mem_occurrences_of_nearest ho
  have hdirect : o.direct = o.nearest.map Occurrence.number :=
    (Node.map_number_nearestFieldsAt o.record.fields o.first).symm
  rw [dependencies_eq_filterMap, hdirect, List.map_map, ← List.filterMap_eq_map]
  apply List.filterMap_congr
  intro i hi
  obtain ⟨q, hq⟩ := exists_get? (hinside i hi)
  have hposition := positionOfNumber?_of_get? hq
  rw [hposition]
  exact congrArg some (Discovery.positionTable_of_idxOf? (nodup_arrange _) hposition)

/-- The lists of indices that a walk makes are translated into the dependencies. -/
theorem translated_eq (root : Record) :
    (Discovery.ofRecord root).translated (ofRecord root).sequence =
      (ofRecord root).rows.map fun row => (ofRecord root).dependencies row.2 := by
  apply List.ext_getElem?
  intro p
  rw [Discovery.translated, List.getElem?_map, List.getElem?_map, getElem?_rows,
    Discovery.ofRecord_eq]
  cases hn : (ofRecord root).sequence[p]? with
  | none => simp [get?, hn]
  | some n =>
      have hlt := mem_sequence.1 (List.mem_of_getElem? hn)
      have ho := List.getElem?_eq_getElem hlt
      have hget : (ofRecord root).get? p = some root.occurrences[n] := by
        rw [get?, hn]
        exact ho
      rw [hget, Option.map_some, Option.map_some, Option.map_some, List.getElem?_map, ho,
        Option.map_some, Option.getD_some, map_positionTable (List.mem_of_getElem? ho)]

/-! ## Dependencies -/

/-- The dependencies of an object in the order of a tree are the positions of the objects directly
inside it, in the order of its fields; they increase and come before the position of the object,
which is the object's own even if equal objects stand at others.  Each position is a dependency of
exactly one object, or of none if its object is directly below the root.  The lists of indices that
a walk makes come to the same when they are translated by a table of positions. -/
theorem dependencies_exact (root : Record) :
    let order := ofRecord root
    (∀ p o, order.get? p = some o →
      (order.dependencies o).map order.get? = o.nearest.map some ∧
      o.nearest.map Occurrence.record = Node.nearestFields o.record.fields ∧
      (order.dependencies o).Pairwise (· < ·) ∧ (∀ q ∈ order.dependencies o, q < p) ∧
      order.positionOf? o = some p ∧
      (o ∉ (Occurrence.root root).nearest →
        ∃! q, ∃ i, order.get? q = some i ∧ p ∈ order.dependencies i) ∧
      (o ∈ (Occurrence.root root).nearest →
        ∀ q i, order.get? q = some i → p ∉ order.dependencies i)) ∧
    (Discovery.ofRecord root).translated order.sequence =
      order.rows.map fun row => order.dependencies row.2 := by
  refine ⟨fun p o hp => ?_, translated_eq root⟩
  obtain ⟨ho, hposition⟩ := get?_eq_some_iff.1 hp
  obtain ⟨hout, hbelow⟩ := existsUnique_nearest ho
  have hpairwise := List.pairwise_append.1 (pairwise_dependencies hp)
  refine ⟨map_get?_dependencies ho, Node.map_record_nearestFieldsAt _ _, hpairwise.1,
    fun q hq => hpairwise.2.2 q hq p (List.mem_singleton_self p), hposition, fun hnot => ?_,
    fun hin q i hi hmem => ?_⟩
  · obtain ⟨i, ⟨hi, hoi⟩, hunique⟩ := hout hnot
    obtain ⟨q, hq⟩ := exists_get? hi
    refine ⟨q, ⟨i, hq, (mem_dependencies_iff hi hp).2 hoi⟩, ?_⟩
    rintro q' ⟨j, hj, hmem⟩
    have hjroot := (get?_eq_some_iff.1 hj).1
    have hji : j = i := hunique j ⟨hjroot, (mem_dependencies_iff hjroot hp).1 hmem⟩
    rw [hji] at hj
    exact eq_of_get? hj hq
  · have hiroot := (get?_eq_some_iff.1 hi).1
    exact hbelow hin i hiroot ((mem_dependencies_iff hiroot hp).1 hmem)

/-- Three equal objects, one of which stands below the root and the others in a fourth object, the
last of them in a map in a list. -/
theorem dependencies_exact_triplets :
    let leaf := Record.observed .component "Leaf" []
    let branch := Record.observed .component "Branch"
      [("first", leaf.node), ("others", .list [.long 1, .map [("last", leaf.node)]])]
    let root := Record.observed .model "Root" [("leaf", leaf.node), ("branch", branch.node)]
    let order := ofRecord root
    order.get? 0 = some ⟨leaf, 1⟩ ∧ order.get? 2 = some ⟨leaf, 4⟩ ∧
      order.get? 3 = some ⟨branch, 2⟩ ∧ order.dependencies ⟨branch, 2⟩ = [1, 2] ∧
      order.positionOf? ⟨leaf, 4⟩ = some 2 ∧
      ∃! q, ∃ i, order.get? q = some i ∧ 2 ∈ order.dependencies i := by
  intro leaf branch root order
  have hlast : order.get? 2 = some ⟨leaf, 4⟩ := by rfl
  obtain ⟨hall, -⟩ := dependencies_exact root
  obtain ⟨-, -, -, -, hposition, hunique, -⟩ := hall 2 ⟨leaf, 4⟩ hlast
  refine ⟨by rfl, hlast, by rfl, by decide +kernel, hposition, hunique ?_⟩
  intro hbelow
  have hfirsts : (Occurrence.root root).nearest.map Occurrence.first = [1, 2] := by rfl
  have hfirst := List.mem_map_of_mem (f := Occurrence.first) hbelow
  simp [hfirsts] at hfirst

end DependencyOrder
end Retrace
