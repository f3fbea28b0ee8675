import Retrace.Proofs.View

/-!
# Exact reports

What it means that a report on two trees is exact.  It has an entry under a key exactly when the key
is missing on one side or the views of its two nodes differ, and so at every depth.  An entry says
how its two nodes differ: two texts, two kinds, a node that stands on one side only, or a report of
its own that is not empty.

Main results:

- Theorem `differs_of_exact`: an exact difference stands only for nodes that differ.
-/

namespace Retrace

namespace Side

variable {β : Type}

/-- Something on one side, and something else on the other. -/
def place (side : Side) (here there : β) : β × β :=
  match side with
  | .left => (here, there)
  | .right => (there, here)

end Side

namespace Difference

/-- The nodes on the two sides, of which either may be missing. -/
abbrev Sides := Option Node × Option Node

/-- Whether one side lacks the node of the other, or the two nodes look different. -/
def Differs (s : Sides) : Prop :=
  s.1.map Node.view ≠ s.2.map Node.view

/-- The last nodes of a key on the two sides. -/
def sidesAt (key : String) (fields : Fields × Fields) : Sides :=
  (Keyed.lookupLast key fields.1, Keyed.lookupLast key fields.2)

/-- The text of a node that has nothing inside. -/
def leafText? : Node → Option String
  | .primitive value => some value.render
  | .list [] => some "[]"
  | .map [] => some "\x7b\x7d"
  | _ => none

mutual

/-- A difference says exactly how the nodes of the two sides differ. -/
inductive Exact : Difference → Sides → Prop where
  | changed {x y : Primitive} (texts : x.render ≠ y.render) :
      Exact (.changed x.render y.render) (some (.primitive x), some (.primitive y))
  | kinds {m n : Node} (names : m.kindName ≠ n.kindName) :
      Exact (.kinds m.kindName n.kindName) (some m, some n)
  | nested {m n : Node} {ms ns : Fields} {report : Report} (kind : m.kindName = n.kindName)
      (left : children? m = some ms) (right : children? n = some ns) (nonempty : report ≠ [])
      (inside : ExactReport report (ms, ns)) : Exact (.nested report) (some m, some n)
  | items {xs ys : List Node} {parts : List Difference} (lengths : xs.length = ys.length)
      (nonempty : parts ≠ []) (inside : ExactItems parts ((xs.map some).zip (ys.map some))) :
      Exact (.items parts) (some (.list xs), some (.list ys))
  | only {side : Side} {n : Node} {text : String} (leaf : leafText? n = some text) :
      Exact (.only side text) (side.place (some n) none)
  | onlyNested {side : Side} {n : Node} {ns : Fields} {report : Report}
      (here : children? n = some ns) (nonempty : report ≠ [])
      (inside : ExactReport report (side.place ns [])) :
      Exact (.nested report) (side.place (some n) none)
  | onlyItems {side : Side} {xs : List Node} {parts : List Difference} (nonempty : parts ≠ [])
      (inside : ExactItems parts (xs.map fun x => side.place (some x) none)) :
      Exact (.items parts) (side.place (some (.list xs)) none)

/-- A report has an entry under a key exactly when the two sides differ there, and every entry is
exact. -/
inductive ExactReport : Report → Fields × Fields → Prop where
  | intro {report : Report} {fields : Fields × Fields}
      (keys : ∀ key, Keyed.hasKey key report = true ↔ Differs (sidesAt key fields))
      (entries : ∀ e ∈ report, Exact e.2 (sidesAt e.1 fields)) : ExactReport report fields

/-- The differences of list items are exact, and there is one for each two items that differ. -/
inductive ExactItems : List Difference → List Sides → Prop where
  | nil : ExactItems [] []
  | same {parts : List Difference} {s : Sides} {rest : List Sides} (equal : ¬ Differs s)
      (more : ExactItems parts rest) : ExactItems parts (s :: rest)
  | differ {d : Difference} {parts : List Difference} {s : Sides} {rest : List Sides}
      (different : Differs s) (first : Exact d s) (more : ExactItems parts rest) :
      ExactItems (d :: parts) (s :: rest)

end

/-! ## Where views are equal -/

/-- Two sides do not differ if they look the same. -/
theorem not_differs_iff {s : Sides} : ¬ Differs s ↔ s.1.map Node.view = s.2.map Node.view :=
  Classical.not_not

/-- Two nodes do not differ if they look the same. -/
theorem not_differs_some_iff {m n : Node} :
    ¬ Differs (some m, some n) ↔ m.view = n.view := by
  rw [not_differs_iff]
  simp

theorem differs_place (side : Side) (n : Node) : Differs (side.place (some n) none) := by
  cases side <;> simp [Differs, Side.place]

/-- Against no fields the other side of a key is missing. -/
theorem sidesAt_place (key : String) (side : Side) (fields : Fields) :
    sidesAt key (side.place fields []) = side.place (Keyed.lookupLast key fields) none := by
  cases side <;> rfl

/-! ## Kinds of nodes -/

theorem eq_primitive_of_kindName {m : Node} (h : m.kindName = "primitive") :
    ∃ y, m = .primitive y := by
  cases m with
  | primitive y => exact ⟨y, rfl⟩
  | list ys => simp [Node.kindName] at h
  | map fs => simp [Node.kindName] at h
  | object kind className configurable configured recorded =>
      cases kind <;> simp [Node.kindName, RecordKind.name] at h

theorem eq_list_of_kindName {m : Node} (h : m.kindName = "list") : ∃ ys, m = .list ys := by
  cases m with
  | primitive y => simp [Node.kindName] at h
  | list ys => exact ⟨ys, rfl⟩
  | map fs => simp [Node.kindName] at h
  | object kind className configurable configured recorded =>
      cases kind <;> simp [Node.kindName, RecordKind.name] at h

theorem eq_map_of_kindName {m : Node} (h : m.kindName = "map") : ∃ fs, m = .map fs := by
  cases m with
  | primitive y => simp [Node.kindName] at h
  | list ys => simp [Node.kindName] at h
  | map fs => exact ⟨fs, rfl⟩
  | object kind className configurable configured recorded =>
      cases kind <;> simp [Node.kindName, RecordKind.name] at h

/-- What has the name of a kind of record is a record of that kind. -/
theorem eq_node_of_kindName {m : Node} {kind : RecordKind} (h : m.kindName = kind.name) :
    ∃ s : Record, m = s.node ∧ s.kind = kind := by
  cases m with
  | primitive y => cases kind <;> simp [Node.kindName, RecordKind.name] at h
  | list ys => cases kind <;> simp [Node.kindName, RecordKind.name] at h
  | map fs => cases kind <;> simp [Node.kindName, RecordKind.name] at h
  | object kind' className configurable configured recorded =>
      refine ⟨⟨kind', className, configurable, configured, recorded⟩, rfl, ?_⟩
      cases kind <;> cases kind' <;> simp_all [Node.kindName, RecordKind.name]

/-- Two nodes of one kind with children look the same exactly when they do so under every key. -/
theorem view_eq_iff_of_children {m n : Node} {ms ns : Fields} (hkind : m.kindName = n.kindName)
    (hm : children? m = some ms) (hn : children? n = some ns) :
    m.view = n.view ↔ ∀ key, ¬ Differs (sidesAt key (ms, ns)) := by
  simp only [not_differs_iff, sidesAt, ← Node.entries_view_eq_iff]
  cases m with
  | primitive x => simp [children?] at hm
  | list xs => simp [children?] at hm
  | map es =>
      rcases eq_map_of_kindName hkind.symm with ⟨fs, rfl⟩
      simp only [children?, Option.some.injEq] at hm hn
      rw [← hm, ← hn, Node.view, Node.view, View.map.injEq]
  | object kind className configurable configured recorded =>
      rcases eq_node_of_kindName hkind.symm with ⟨s, rfl, hs⟩
      simp only [children?, Record.node, Option.some.injEq] at hm hn
      rw [Record.node, ← hm, ← hn, Node.view_object, Node.view_object, hs, View.object.injEq]
      simp

/-- Two lists of one length look the same exactly when their items do so in pairs. -/
theorem viewItems_eq_iff {xs ys : List Node} (hlen : xs.length = ys.length) :
    Node.viewItems xs = Node.viewItems ys ↔
      ∀ s ∈ (xs.map some).zip (ys.map some), ¬ Differs s := by
  induction xs generalizing ys with
  | nil =>
      cases ys with
      | nil => simp
      | cons y ys => simp at hlen
  | cons x xs ih =>
      cases ys with
      | nil => simp at hlen
      | cons y ys =>
          simp only [List.length_cons, Nat.add_right_cancel_iff] at hlen
          simp only [Node.viewItems, List.cons.injEq, List.map_cons, List.zip_cons_cons,
            List.forall_mem_cons, not_differs_some_iff, ih hlen]

/-- Where differences of items are told, some items differ. -/
theorem differs_of_exactItems {parts : List Difference} {pairs : List Sides}
    (h : ExactItems parts pairs) (hne : parts ≠ []) : ∃ s ∈ pairs, Differs s := by
  induction pairs generalizing parts with
  | nil =>
      cases h
      exact absurd rfl hne
  | cons s rest ih =>
      cases h with
      | same equal more =>
          rcases ih more hne with ⟨t, ht, hdiffers⟩
          exact ⟨t, List.mem_cons_of_mem _ ht, hdiffers⟩
      | differ different first more => exact ⟨s, List.mem_cons_self, different⟩

/-- Items of which nothing is said look the same. -/
theorem not_differs_of_exactItems {pairs : List Sides} (h : ExactItems [] pairs) :
    ∀ s ∈ pairs, ¬ Differs s := by
  induction pairs with
  | nil => simp
  | cons s rest ih =>
      cases h with
      | same equal more => exact List.forall_mem_cons.2 ⟨equal, ih more⟩

/-- Where a report tells something, some key differs. -/
theorem differs_of_exactReport {report : Report} {fields : Fields × Fields}
    (h : ExactReport report fields) (hne : report ≠ []) :
    ∃ key, Differs (sidesAt key fields) := by
  rcases h with ⟨keys, -⟩
  rcases List.exists_mem_of_ne_nil _ hne with ⟨e, he⟩
  exact ⟨e.1, (keys e.1).1 (List.any_eq_true.2 ⟨e, he, by simp⟩)⟩

/-- An exact difference stands only for nodes that differ. -/
theorem differs_of_exact {d : Difference} {s : Sides} (h : Exact d s) : Differs s := by
  cases h with
  | changed texts => simpa [Differs, Node.view] using texts
  | @kinds m n names =>
      intro heq
      simp only [Option.map_some, Option.some.injEq] at heq
      apply names
      cases m <;> cases n <;> simp_all [Node.view, Node.kindName]
  | nested kind left right nonempty inside =>
      intro heq
      simp only [Option.map_some, Option.some.injEq] at heq
      rcases differs_of_exactReport inside nonempty with ⟨key, hdiffers⟩
      exact (view_eq_iff_of_children kind left right).1 heq key hdiffers
  | items lengths nonempty inside =>
      intro heq
      simp only [Option.map_some, Option.some.injEq, Node.view, View.list.injEq] at heq
      rcases differs_of_exactItems inside nonempty with ⟨s, hs, hdiffers⟩
      exact (viewItems_eq_iff lengths).1 heq s hs hdiffers
  | only leaf => exact differs_place _ _
  | onlyNested here nonempty inside => exact differs_place _ _
  | onlyItems nonempty inside => exact differs_place _ _

end Difference
end Retrace
