import Mathlib.Logic.Function.Basic
import Retrace.Proofs.PostOrder

/-!
# Discovering the objects of a tree

A walk can keep two lists, the objects that it has met, and for each of them the indices of the
objects met directly inside it.  An object that is met gets the next index, and this index is added
to the list of the object around it.  What the walk has met in the end are the occurrences of the
tree, and the lists of indices are what stands directly inside each of them.  To tell positions
instead of indices, a table of positions is filled along the arrangement of the indices.

Main results:

- Theorem `Discovery.walk_spec`: walking a node adds its objects, and its outermost ones to the list
  of the object around it.
- Theorem `Discovery.ofRecord_eq`: a walk of a tree meets its occurrences, with what they depend on.
- Theorem `Discovery.positionTable_of_idxOf?`: the table gives every number its position.
-/

namespace Retrace

/-- How far a walk has met the objects of a tree. -/
structure Discovery where
  /-- the objects that have been met -/
  found : List Record
  /-- for each of them the indices of the objects met directly inside it -/
  edges : List (List Nat)

namespace Discovery

/-- Add indices to the list of an object; for the root no list is kept. -/
def link (parent : Option Nat) (indices : List Nat) (edges : List (List Nat)) : List (List Nat) :=
  match parent with
  | some p => edges.modify p (· ++ indices)
  | none => edges

/-- Meet an object inside another one. -/
def enter (d : Discovery) (parent : Option Nat) (r : Record) : Discovery where
  found := d.found ++ [r]
  edges := link parent [d.found.length] (d.edges ++ [[]])

mutual

/-- Walk a node inside the object with the index `parent`. -/
def walk (parent : Option Nat) (d : Discovery) : Node → Discovery
  | .primitive _ => d
  | .list items => walkItems parent d items
  | .map entries => walkFields parent d entries
  | .object kind className configurable configured recorded =>
      let entered := d.enter parent ⟨kind, className, configurable, configured, recorded⟩
      walkFields (some d.found.length) (walkFields (some d.found.length) entered configured)
        recorded

/-- Walk the items of a list. -/
def walkItems (parent : Option Nat) (d : Discovery) : List Node → Discovery
  | [] => d
  | n :: rest => walkItems parent (walk parent d n) rest

/-- Walk fields. -/
def walkFields (parent : Option Nat) (d : Discovery) : List (String × Node) → Discovery
  | [] => d
  | (_, n) :: rest => walkFields parent (walk parent d n) rest

end

/-! ## Lists of indices -/

/-- A change in the first of two lists leaves the second one. -/
theorem modify_append {β : Type} (f : β → β) {xs : List β} {i : Nat} (hi : i < xs.length)
    (ys : List β) : (xs ++ ys).modify i f = xs.modify i f ++ ys := by
  induction xs generalizing i with
  | nil => simp at hi
  | cons x xs ih =>
      cases i with
      | zero => rfl
      | succ i => rw [List.cons_append, List.modify_succ_cons, List.modify_succ_cons,
          ih (Nat.lt_of_succ_lt_succ hi), List.cons_append]

/-- The entry behind a list is changed at the length of that. -/
theorem modify_length {β : Type} (f : β → β) (xs : List β) (x : β) (ys : List β) :
    (xs ++ x :: ys).modify xs.length f = xs ++ f x :: ys := by
  induction xs with
  | nil => rfl
  | cons y xs ih => rw [List.cons_append, List.length_cons, List.modify_succ_cons, ih,
      List.cons_append]

@[simp] theorem length_link (parent : Option Nat) (indices : List Nat) (edges : List (List Nat)) :
    (link parent indices edges).length = edges.length := by
  cases parent <;> simp [link]

/-- Indices may be added in two steps. -/
theorem link_link (parent : Option Nat) (a b : List Nat) (edges : List (List Nat)) :
    link parent b (link parent a edges) = link parent (a ++ b) edges := by
  cases parent with
  | none => rfl
  | some p => simp [link, List.modify_modify_eq, Function.comp_def]

theorem link_nil (parent : Option Nat) (edges : List (List Nat)) :
    link parent [] edges = edges := by
  cases parent with
  | none => rfl
  | some p => simp [link, List.modify_id, ← Function.id_def]

theorem link_append {parent : Option Nat} {edges : List (List Nat)}
    (h : ∀ p, parent = some p → p < edges.length) (indices : List Nat) (more : List (List Nat)) :
    link parent indices (edges ++ more) = link parent indices edges ++ more := by
  cases parent with
  | none => rfl
  | some p => exact modify_append _ (h p rfl) more

/-! ## Walks -/

/-- Whether a walk can go on inside the object with the index `parent`. -/
structure Sound (d : Discovery) (parent : Option Nat) : Prop where
  length_edges : d.edges.length = d.found.length
  parent_lt : ∀ p, parent = some p → p < d.found.length

/-- A walk that has met some more objects, of which some lie directly inside the one around them. -/
def after (d : Discovery) (parent : Option Nat) (direct : List Nat) (objects : List Occurrence) :
    Discovery where
  found := d.found ++ objects.map Occurrence.record
  edges := link parent direct d.edges ++ objects.map Occurrence.direct

variable {d : Discovery} {parent : Option Nat}

theorem after_nil (d : Discovery) (parent : Option Nat) : d.after parent [] [] = d := by
  simp [after, link_nil]

/-- A walk that has met objects can go on. -/
theorem Sound.after (h : d.Sound parent) (direct : List Nat) (objects : List Occurrence) :
    (d.after parent direct objects).Sound parent := by
  refine ⟨by simp [Discovery.after, h.length_edges], fun p hp => ?_⟩
  have := h.parent_lt p hp
  simp only [Discovery.after, List.length_append, List.length_map]
  omega

/-- Meeting objects in two goes is meeting them in one. -/
theorem after_after (h : d.Sound parent) (a b : List Nat) (xs ys : List Occurrence) :
    (d.after parent a xs).after parent b ys = d.after parent (a ++ b) (xs ++ ys) := by
  have hlink : link parent b (link parent a d.edges ++ xs.map Occurrence.direct) =
      link parent (a ++ b) d.edges ++ xs.map Occurrence.direct := by
    rw [link_append, link_link]
    intro p hp
    rw [length_link, h.length_edges]
    exact h.parent_lt p hp
  simp only [after, hlink, List.map_append, List.append_assoc]

/-- An object that is met is found with what is directly inside it once its fields are walked. -/
theorem after_enter (h : d.Sound parent) (r : Record) (objects : List Occurrence) :
    (d.enter parent r).after (some d.found.length) (Occurrence.direct ⟨r, d.found.length + 1⟩)
      objects = d.after parent [d.found.length] (⟨r, d.found.length + 1⟩ :: objects) := by
  have hparent : ∀ p, parent = some p → p < d.edges.length := by
    rw [h.length_edges]
    exact h.parent_lt
  have hlast : link (some d.found.length) (Occurrence.direct ⟨r, d.found.length + 1⟩)
      (link parent [d.found.length] d.edges ++ [[]]) =
        link parent [d.found.length] d.edges ++ [Occurrence.direct ⟨r, d.found.length + 1⟩] := by
    have hmodify := modify_length (· ++ Occurrence.direct ⟨r, d.found.length + 1⟩)
      (link parent [d.found.length] d.edges) [] []
    rwa [length_link, h.length_edges] at hmodify
  simp only [after, enter, link_append hparent, hlast, List.map_cons, List.append_assoc,
    List.singleton_append]

/-- A walk can go on inside an object that it enters. -/
theorem Sound.enter (h : d.Sound parent) (r : Record) :
    (d.enter parent r).Sound (some d.found.length) := by
  refine ⟨by simp [Discovery.enter, h.length_edges], ?_⟩
  rintro p ⟨rfl⟩
  simp [Discovery.enter]

/-- A node has as many occurrences as objects. -/
theorem length_occurrences (n : Node) (first : Nat) : (n.occurrences first).length = n.objects := by
  have h := congrArg List.length (Node.map_first_occurrences n first)
  rwa [List.length_map, List.length_range'] at h

theorem length_occurrencesFields (fields : Fields) (first : Nat) :
    (Node.occurrencesFields first fields).length = Node.objectsFields fields := by
  have h := congrArg List.length (Node.map_first_occurrencesFields fields first)
  rwa [List.length_map, List.length_range'] at h

/-- The objects that are met are added to those that were found. -/
theorem length_found_after (d : Discovery) (parent : Option Nat) (direct : List Nat)
    (objects : List Occurrence) :
    (d.after parent direct objects).found.length = d.found.length + objects.length := by
  simp [after]

mutual

/-- Walking a node adds its objects, and its outermost ones to the list of the object around it. -/
theorem walk_spec : (n : Node) → ∀ parent d, Sound d parent → walk parent d n =
    d.after parent (n.outermost d.found.length) (n.occurrences d.found.length)
  | .primitive value => fun _ _ _ => (after_nil _ _).symm
  | .list items => walkItems_spec items
  | .map entries => walkFields_spec entries
  | .object kind className configurable configured recorded => by
      intro parent d h
      let r : Record := ⟨kind, className, configurable, configured, recorded⟩
      have hentered := h.enter r
      have hlength : (d.enter parent r).found.length = d.found.length + 1 := by
        simp [enter]
      rw [walk, walkFields_spec configured _ _ hentered,
        walkFields_spec recorded _ _ (hentered.after _ _), after_after hentered,
        length_found_after, length_occurrencesFields, hlength,
        ← Node.outermostFields_append, ← Node.occurrencesFields_append]
      exact (after_enter h r _).trans
        (by rw [Node.outermost, Node.occurrences, Node.occurrencesFields_append])

/-- A walk through items finds their objects and links the outermost ones. -/
theorem walkItems_spec : (items : List Node) → ∀ parent d, Sound d parent →
    walkItems parent d items = d.after parent (Node.outermostItems d.found.length items)
      (Node.occurrencesItems d.found.length items)
  | [] => fun _ _ _ => (after_nil _ _).symm
  | n :: rest => by
      intro parent d h
      rw [walkItems, walk_spec n _ _ h, walkItems_spec rest _ _ (h.after _ _), after_after h,
        length_found_after, length_occurrences, Node.outermostItems, Node.occurrencesItems]

theorem walkFields_spec : (fields : List (String × Node)) → ∀ parent d, Sound d parent →
    walkFields parent d fields = d.after parent (Node.outermostFields d.found.length fields)
      (Node.occurrencesFields d.found.length fields)
  | [] => fun _ _ _ => (after_nil _ _).symm
  | (_, n) :: rest => by
      intro parent d h
      rw [walkFields, walk_spec n _ _ h, walkFields_spec rest _ _ (h.after _ _), after_after h,
        length_found_after, length_occurrences, Node.outermostFields, Node.occurrencesFields]

end

/-- The walk of a tree. -/
def ofRecord (root : Record) : Discovery :=
  walkFields none ⟨[], []⟩ root.fields

/-- A walk of a tree meets its occurrences, with what they depend on. -/
theorem ofRecord_eq (root : Record) :
    ofRecord root = ⟨root.occurrences.map Occurrence.record,
      root.occurrences.map Occurrence.direct⟩ :=
  walkFields_spec root.fields none ⟨[], []⟩ ⟨rfl, by simp⟩

/-! ## From indices to positions -/

/-- The table of positions: a number is given the position at which it stands. -/
def positionTable (sequence : List Nat) : Nat → Nat :=
  sequence.zipIdx.foldl (fun table e => Function.update table e.1 e.2) fun _ => 0

/-- For every number of an arrangement the positions of what its object depends on. -/
def translated (d : Discovery) (sequence : List Nat) : List (List Nat) :=
  sequence.map fun n => (d.edges[n]?.getD []).map (positionTable sequence)

/-- Numbers that stand in no list further on keep the position that they were given. -/
theorem foldl_zipIdx_update {sequence : List Nat} (hnodup : sequence.Nodup) (n start : Nat)
    (table : Nat → Nat) :
    ((sequence.zipIdx start).foldl (fun table e => Function.update table e.1 e.2) table) n =
      ((sequence.idxOf? n).map (start + ·)).getD (table n) := by
  induction sequence generalizing start table with
  | nil => rfl
  | cons k rest ih =>
      rw [List.nodup_cons] at hnodup
      rw [List.zipIdx_cons, List.foldl_cons, ih hnodup.2, List.idxOf?_cons]
      by_cases hk : k = n
      · subst hk
        have hnone : rest.idxOf? k = none := List.idxOf?_eq_none_iff.2 hnodup.1
        simp [hnone]
      · rw [Function.update_of_ne (Ne.symm hk)]
        cases rest.idxOf? n with
        | none => simp [hk]
        | some i =>
            simp only [beq_iff_eq, hk, if_false, Option.map_some, Option.getD_some]
            omega

/-- The table gives every number of an arrangement its own position. -/
theorem positionTable_of_idxOf? {sequence : List Nat} (hnodup : sequence.Nodup) {n p : Nat}
    (h : sequence.idxOf? n = some p) : positionTable sequence n = p := by
  rw [positionTable, foldl_zipIdx_update hnodup, h, Option.map_some, Option.getD_some,
    Nat.zero_add]

end Discovery
end Retrace
