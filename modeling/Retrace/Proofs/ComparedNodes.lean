import Retrace.Proofs.Difference

/-!
# What comparing two nodes comes to

The comparison goes through the keys of the left side first and adds what only the right side has.
Brought in key order, that is one pass over the keys of both sides, each of them compared with what
it leads to on the two sides.  With this the comparison of two nodes has five cases, which are
stated here once, and what holds of all comparisons is shown by induction over the inner nodes of a
node.

Main results:

- Theorem `Node.innerInduction`: what holds of a node if it holds of its inner nodes holds of all.
- Theorem `Outcomes.report_eq_collect`: a report is made by one pass over the keys of both sides.
- Theorem `compared`: what comparing two nodes comes to.
-/

namespace Retrace

/-! ## Induction over inner nodes -/

namespace Node

/-- The items of a list, or the children of an object or a map. -/
def inner : Node → List Node
  | .primitive _ => []
  | .list items => items
  | .map entries => entries.map Prod.snd
  | .object kind className configurable configured recorded =>
      (Record.children ⟨kind, className, configurable, configured, recorded⟩).map Prod.snd

/-- What stands under a key lies inside a node. -/
theorem mem_inner_of_children {n : Node} {ns : Fields} (h : Difference.children? n = some ns)
    {e : String × Node} (he : e ∈ ns) : e.2 ∈ n.inner := by
  cases n with
  | primitive x => simp [Difference.children?] at h
  | list xs => simp [Difference.children?] at h
  | map es =>
      rw [← Option.some.inj h] at he
      exact List.mem_map_of_mem he
  | object kind className configurable configured recorded =>
      rw [← Option.some.inj h] at he
      exact List.mem_map_of_mem he

section

variable {P : Node → Prop}

mutual

/-- What holds of a node if it holds of its inner nodes holds of all nodes. -/
theorem innerInduction (step : ∀ n : Node, (∀ x ∈ n.inner, P x) → P n) : (n : Node) → P n
  | .primitive x => step _ (by simp [inner])
  | .list xs => step _ (innerInduction_items step xs)
  | .map es => step _ (List.forall_mem_map.2 (innerInduction_fields step es))
  | .object kind className configurable configured recorded => by
      apply step
      rw [inner, List.forall_mem_map]
      have hprimitive : ∀ x, P (.primitive x) := fun x => step _ (by simp [inner])
      exact Difference.forall_mem_children hprimitive (innerInduction_fields step configured)
        (innerInduction_fields step recorded)

/-- The induction for the items of a list. -/
theorem innerInduction_items (step : ∀ n : Node, (∀ x ∈ n.inner, P x) → P n) :
    (xs : List Node) → ∀ x ∈ xs, P x
  | [] => by simp
  | x :: xs => List.forall_mem_cons.2 ⟨innerInduction step x, innerInduction_items step xs⟩

/-- The induction for the values of fields. -/
theorem innerInduction_fields (step : ∀ n : Node, (∀ x ∈ n.inner, P x) → P n) :
    (es : List (String × Node)) → ∀ e ∈ es, P e.2
  | [] => by simp
  | (_, n) :: rest =>
      List.forall_mem_cons.2 ⟨innerInduction step n, innerInduction_fields step rest⟩

end

end

end Node

namespace Difference

/-! ## One part after the other -/

/-- The first outcome counts before the others. -/
theorem collect_cons (key : String) (outcome : Outcome) (rest : List (String × Outcome)) :
    collect ((key, outcome) :: rest) = outcome.bind fun found =>
      (collect rest).map fun report => (found.map fun d => (key, d)).toList ++ report := by
  simp only [collect]
  cases outcome with
  | error fault => rfl
  | ok found =>
      cases collect rest with
      | error fault => rfl
      | ok report => cases found <;> rfl

/-- Lists are compared item by item, and the first error ends this. -/
theorem compareItems_cons (path : String) (index : Nat) (x y : Node) (xs ys : List Node) :
    compareItems path index (x :: xs) (y :: ys) =
      (compareNodes (itemPath path index) x y).bind fun found =>
        (compareItems path (index + 1) xs ys).map fun items => found.toList ++ items := by
  rw [compareItems]
  cases compareNodes (itemPath path index) x y <;> rfl

/-! ## Outcomes by key -/

/-- What comparing the nodes of every key of the two sides gives, in key order. -/
def outcomesByKey (path : String) (fields : Fields × Fields) : List (String × Outcome) :=
  (Keyed.ofList (fields.1 ++ fields.2)).map fun e =>
    (e.1, compareAt path e.1 (sidesAt e.1 fields))

/-- Outcomes stand in the order of their keys. -/
theorem ascending_outcomesByKey (path : String) (fields : Fields × Fields) :
    Keyed.Ascending (outcomesByKey path fields) :=
  (Keyed.ascending_ofList _).map fun key _ => compareAt path key (sidesAt key fields)

/-- An outcome is that of a key of one of the sides. -/
theorem lookup_outcomesByKey (path key : String) (fields : Fields × Fields) :
    Keyed.lookup key (outcomesByKey path fields) =
      ((sidesAt key fields).2.or (sidesAt key fields).1).map fun _ =>
        compareAt path key (sidesAt key fields) := by
  rw [outcomesByKey, Keyed.lookup_map fun key _ => compareAt path key (sidesAt key fields),
    Keyed.lookup_ofList, Keyed.lookupLast_append]
  rfl

/-- A report is made by one pass over the keys of both sides. -/
theorem Outcomes.report_eq_collect {path : String} {outcomes : List (String × Outcome)}
    {fields : Fields × Fields} (h : Outcomes path outcomes fields) :
    report outcomes (missingFrom .right fields.2 fields.1) =
      collect (outcomesByKey path fields) := by
  rw [report]
  congr 1
  apply (Keyed.ascending_ofList _).eq_of_lookup (ascending_outcomesByKey path fields)
  intro key
  rw [Keyed.lookup_ofList, Keyed.lookupLast_append, Keyed.lookupLast_map
    fun _ (d : Difference) => (.ok (some d) : Outcome), lookupLast_missingFrom, h key,
    lookup_outcomesByKey, sidesAt]
  cases hleft : Keyed.lookupLast key fields.1 with
  | some n =>
      have hkey : Keyed.hasKey key fields.1 = true := by
        rw [Keyed.hasKey_eq_isSome_lookupLast, hleft]
        rfl
      cases Keyed.lookupLast key fields.2 <;> simp [hkey]
  | none =>
      rw [Keyed.lookupLast_eq_none_iff.1 hleft]
      cases Keyed.lookupLast key fields.2 <;> simp [compareAt]

/-! ## The cases of a comparison -/

/-- What comparing two nodes comes to: nodes of different kinds are not compared inside, primitives
by their text, lists of one length item by item, and the children of two nodes of one kind by
key. -/
inductive Compared (path : String) : Node → Node → Outcome → Prop
  | kinds {n m : Node} (h : n.kindName ≠ m.kindName) :
      Compared path n m (.ok (some (.kinds n.kindName m.kindName)))
  | primitives (x y : Primitive) :
      Compared path (.primitive x) (.primitive y) (.ok (comparePrimitives x y))
  | lengths {xs ys : List Node} (h : xs.length ≠ ys.length) :
      Compared path (.list xs) (.list ys) (.error ⟨path, .lengths xs.length ys.length⟩)
  | items {xs ys : List Node} (h : xs.length = ys.length) :
      Compared path (.list xs) (.list ys)
        ((compareItems path 0 xs ys).map fun items =>
          if items.isEmpty then none else some (.items items))
  | children {n m : Node} {ns ms : Fields} (h : n.kindName = m.kindName)
      (hn : children? n = some ns) (hm : children? m = some ms) :
      Compared path n m ((collect (outcomesByKey path (ns, ms))).map nestedUnlessEmpty)

/-- Nodes of one kind that have fields are compared by key. -/
theorem compareNodes_of_children {n m : Node} {ns ms : Fields} (hkind : n.kindName = m.kindName)
    (hn : children? n = some ns) (hm : children? m = some ms) (path : String) :
    compareNodes path n m = (collect (outcomesByKey path (ns, ms))).map nestedUnlessEmpty := by
  cases n with
  | primitive x => simp [children?] at hn
  | list xs => simp [children?] at hn
  | map es =>
      obtain ⟨fs, rfl⟩ := eq_map_of_kindName hkind.symm
      rw [← Option.some.inj hn, ← Option.some.inj hm, compareNodes,
        (outcomes_map path es fs).report_eq_collect]
  | object kind className configurable configured recorded =>
      obtain ⟨s, rfl, rfl⟩ := eq_node_of_kindName hkind.symm
      have houtcomes := outcomes_object path
        ⟨s.kind, className, configurable, configured, recorded⟩ s.children
      rw [← Option.some.inj hn, ← Option.some.inj hm]
      simp only [compareNodes, Node.record?_node, if_true, objectReport]
      rw [houtcomes.report_eq_collect]

/-- Comparing two nodes follows the rules, whatever they are. -/
theorem compared (path : String) (n m : Node) : Compared path n m (compareNodes path n m) := by
  by_cases hkind : n.kindName = m.kindName
  · cases n with
    | primitive x =>
        obtain ⟨y, rfl⟩ := eq_primitive_of_kindName hkind.symm
        exact .primitives x y
    | list xs =>
        obtain ⟨ys, rfl⟩ := eq_list_of_kindName hkind.symm
        rw [compareNodes]
        split
        · rename_i hlength
          exact .items hlength
        · rename_i hlength
          exact .lengths hlength
    | map es =>
        obtain ⟨fs, rfl⟩ := eq_map_of_kindName hkind.symm
        rw [compareNodes_of_children hkind rfl rfl]
        exact .children hkind rfl rfl
    | object kind className configurable configured recorded =>
        obtain ⟨s, rfl, hs⟩ := eq_node_of_kindName hkind.symm
        rw [compareNodes_of_children hkind rfl rfl]
        exact .children hkind rfl rfl
  · rw [compareNodes_of_kindName_ne hkind]
    exact .kinds hkind

/-- Two trees are compared by one pass over the keys of both. -/
theorem compareTrees_eq_collect {left right : Node} {ls rs : Fields}
    (hleft : children? left = some ls) (hright : children? right = some rs) :
    compareTrees left right = collect (outcomesByKey "" (ls, rs)) := by
  obtain ⟨outcomes, houtcomes, hreport⟩ := compareTrees_eq_report hleft hright
  rw [hreport, houtcomes.report_eq_collect]

end Difference
end Retrace
