import Retrace.Proofs.DependencyOrder
import Retrace.Proofs.Keyed
import Retrace.Proofs.WholeNumbers

/-!
# Blueprints

A blueprint is what an object is configured with, all the way down: its class, the last value of
every key among its configured fields, and in their places the blueprints of the objects that stand
there.  Every object carries the name that the order of its tree gives it, so objects that are equal
at different places have different blueprints.  From configurations that refer to each other by name
blueprints are assembled one after the other, each out of those that were assembled before it.

Main results:

- Theorem `componentName_injective`: components at different positions have different names.
- Theorem `ofProperty_property`: the property that a configured field becomes leads back to the
  blueprint of the field.
-/

namespace Retrace

/-- What an object is configured with, down to the texts of primitives. -/
inductive Blueprint where
  | text (text : String)
  | list (items : List Blueprint)
  | map (entries : List (String × Blueprint))
  | object (name : Option String) (className : String) (fields : List (String × Blueprint))
  /-- a reference to nothing that was assembled before -/
  | dangling (name : String)

namespace Node

mutual

/-- The blueprint of a node, the first object in it having the number `first`. -/
def blueprint (order : DependencyOrder) (first : Nat) : Node → Blueprint
  | .primitive value => .text value.render
  | .list items => .list (blueprintItems order first items)
  | .map entries => .map (blueprintFields order first entries)
  | .object kind className configurable configured recorded =>
      .object (order.nameOf? ⟨⟨kind, className, configurable, configured, recorded⟩, first + 1⟩)
        className (Keyed.ofList (blueprintFields order (first + 1) configured))

/-- The blueprints of the items of a list. -/
def blueprintItems (order : DependencyOrder) (first : Nat) : List Node → List Blueprint
  | [] => []
  | n :: rest => n.blueprint order first :: blueprintItems order (first + n.objects) rest

/-- The blueprints of fields. -/
def blueprintFields (order : DependencyOrder) (first : Nat) :
    List (String × Node) → List (String × Blueprint)
  | [] => []
  | (key, n) :: rest =>
      (key, n.blueprint order first) :: blueprintFields order (first + n.objects) rest

end

end Node

/-- The blueprint of an object of a tree. -/
def Occurrence.blueprint (order : DependencyOrder) (o : Occurrence) : Blueprint :=
  .object (order.nameOf? o) o.record.className
    (Keyed.ofList (Node.blueprintFields order o.first o.record.configured))

/-- The names that a property refers to. -/
def Property.references : Property → List String
  | .component name => [name]
  | .componentList names => names
  | _ => []

namespace Blueprint

/-- The blueprint assembled under a name. -/
def resolve (built : List (String × Blueprint)) (name : String) : Blueprint :=
  (Keyed.lookup name built).getD (.dangling name)

/-- What a property leads to. -/
def ofProperty (built : List (String × Blueprint)) : Property → Blueprint
  | .value s => .text s
  | .list items => .list (items.map .text)
  | .map entries => .map (entries.map fun e => (e.1, .text e.2))
  | .component name => resolve built name
  | .componentList names => .list (names.map (resolve built))

/-- The blueprint that a configuration describes. -/
def ofConfiguration (built : List (String × Blueprint)) (c : Configuration) : Blueprint :=
  .object (some c.name) c.className (c.properties.map fun e => (e.1, ofProperty built e.2))

/-- Assemble configurations one after the other, each out of those before it. -/
def assemble (built : List (String × Blueprint)) :
    List Configuration → List (String × Blueprint)
  | [] => built
  | c :: rest => assemble (built ++ [(c.name, ofConfiguration built c)]) rest

end Blueprint

/-! ## Names -/

/-- Components at different positions have different names. -/
theorem componentName_injective {a b : String} {p q : Nat}
    (h : componentName a p = componentName b q) : p = q := by
  -- the position is what follows the last dash, for digits hold no dash
  have hcut : ∀ (s : List Char) (n : Nat),
      ((s ++ '-' :: Decimal.natDigits n).reverse.takeWhile fun c => c != '-').reverse =
        Decimal.natDigits n := by
    intro s n
    have hdash : ∀ c ∈ (Decimal.natDigits n).reverse, (c != '-') = true := by
      intro c hc
      have hdigit := Decimal.isDigit_of_mem_natDigits (List.mem_reverse.1 hc)
      rw [bne_iff_ne]
      rintro rfl
      exact absurd hdigit (by decide)
    rw [List.reverse_append, List.reverse_cons, List.append_assoc,
      List.takeWhile_append_of_pos hdash]
    simp
  apply Decimal.natDigits_injective
  have hchars := congrArg String.toList h
  rw [componentName, componentName, String.toList_ofList, String.toList_ofList] at hchars
  rw [← hcut (Text.lowercase (shortClassName a)) p, hchars, hcut]

/-! ## What properties lead to -/

/-- Whether an object stands in a node, inside no other object of it. -/
def Node.Outermost (n : Node) (first : Nat) (o : Occurrence) : Prop :=
  o ∈ n.occurrences first ∧ ∃ k ∈ n.outermost first, o.number? = some k

/-- Whether the name of an object leads to its blueprint. -/
def Resolved (order : DependencyOrder) (built : List (String × Blueprint)) (o : Occurrence) :
    Prop :=
  ∀ name, order.nameOf? o = some name → Keyed.lookup name built = some (o.blueprint order)

/-- The name of an object that was resolved leads to its blueprint. -/
theorem Resolved.resolve {order : DependencyOrder} {built : List (String × Blueprint)}
    {o : Occurrence} {name : String} (h : Resolved order built o)
    (hname : order.nameOf? o = some name) :
    Blueprint.resolve built name = o.blueprint order := by
  rw [Blueprint.resolve, h name hname]
  rfl

namespace Extraction

/-- A reference names an object that can be rebuilt. -/
theorem reference_ok {order : DependencyOrder} {path name : String} {o : Occurrence}
    (h : reference order path o = .ok name) :
    o.record.configurable = true ∧ order.nameOf? o = some name := by
  rw [reference] at h
  split at h
  · rename_i hconf
    cases hname : order.nameOf? o with
    | none => simp [hname] at h
    | some found =>
        simp only [hname, Except.ok.injEq] at h
        exact ⟨hconf, by rw [h]⟩
  · simp at h

/-- The objects of a list are referred to by their names, in order. -/
theorem references_ok {order : DependencyOrder} {path : String} {index : Nat}
    {os : List Occurrence} {names : List String} (h : references order path index os = .ok names) :
    (∀ o ∈ os, o.record.configurable = true) ∧
      os.map (fun o => order.nameOf? o) = names.map some := by
  induction os generalizing index names with
  | nil =>
      simp only [references, Except.ok.injEq] at h
      simp [← h]
  | cons o rest ih =>
      rw [references] at h
      split at h
      · simp at h
      · rename_i name ho
        cases hrest : references order path (index + 1) rest with
        | error fault => simp [hrest, Except.map] at h
        | ok more =>
            simp only [hrest, Except.map, Except.ok.injEq] at h
            rcases reference_ok ho with ⟨hconf, hname⟩
            rcases ih hrest with ⟨hconfs, hnames⟩
            subst h
            exact ⟨List.forall_mem_cons.2 ⟨hconf, hconfs⟩, by simp [hname, hnames]⟩

/-- The texts of the primitives among the items of a list. -/
def listTexts (items : List Node) : List String :=
  items.filterMap fun i => i.primitive?.map Primitive.render

/-- A first item gives its text if it is a primitive. -/
theorem listTexts_cons (n : Node) (rest : List Node) :
    listTexts (n :: rest) = (n.primitive?.map Primitive.render).toList ++ listTexts rest := by
  rw [listTexts, List.filterMap_cons]
  cases n.primitive? <;> rfl

/-- A list whose items are all primitives holds their texts. -/
theorem listTexts_eq_blueprintItems (order : DependencyOrder) {items : List Node} (first : Nat)
    (h : (listTexts items).length = items.length) :
    (listTexts items).map Blueprint.text = Node.blueprintItems order first items := by
  induction items generalizing first with
  | nil => rfl
  | cons n rest ih =>
      have hrest : (listTexts rest).length ≤ rest.length := List.length_filterMap_le _ rest
      rw [listTexts_cons, List.length_append, List.length_cons] at h
      cases n with
      | primitive value =>
          simp only [Node.primitive?, Option.map_some, Option.toList_some,
            List.length_singleton] at h
          rw [listTexts_cons, List.map_append,
            ih (first + (Node.primitive value).objects) (by omega),
            Node.blueprintItems, Node.blueprint]
          rfl
      | _ =>
          simp only [Node.primitive?, Option.map_none, Option.toList_none, List.length_nil] at h
          omega

/-- The objects among the items of a list, at their places. -/
def listObjects (first : Nat) (items : List Node) : List Occurrence :=
  (numberItems first items).filterMap fun i =>
    i.1.record?.map fun r => (⟨r, i.2 + 1⟩ : Occurrence)

/-- A first item gives its object if it is one. -/
theorem listObjects_cons (first : Nat) (n : Node) (rest : List Node) :
    listObjects first (n :: rest) =
      (n.record?.map fun r => (⟨r, first + 1⟩ : Occurrence)).toList ++
        listObjects (first + n.objects) rest := by
  rw [listObjects, numberItems, List.filterMap_cons]
  cases n.record? <;> rfl

/-- There are at most as many objects as items. -/
theorem length_listObjects_le (first : Nat) (items : List Node) :
    (listObjects first items).length ≤ items.length := by
  induction items generalizing first with
  | nil => exact Nat.le_refl 0
  | cons n rest ih =>
      have := ih (first + n.objects)
      rw [listObjects_cons, List.length_append, List.length_cons]
      cases n.record? with
      | none => simp only [Option.map_none, Option.toList_none, List.length_nil]; omega
      | some r =>
          simp only [Option.map_some, Option.toList_some, List.length_singleton]
          omega

/-- A list whose items are all objects holds their blueprints. -/
theorem listObjects_eq_blueprintItems (order : DependencyOrder) {items : List Node} {first : Nat}
    (h : (listObjects first items).length = items.length) :
    (listObjects first items).map (Occurrence.blueprint order) =
      Node.blueprintItems order first items := by
  induction items generalizing first with
  | nil => rfl
  | cons n rest ih =>
      have hrest := length_listObjects_le (first + n.objects) rest
      rw [listObjects_cons, List.length_append, List.length_cons] at h
      cases n with
      | object kind className configurable configured recorded =>
          simp only [Node.record?, Option.map_some, Option.toList_some, List.length_singleton] at h
          rw [listObjects_cons, List.map_append, ih (by omega), Node.blueprintItems,
            Node.blueprint]
          rfl
      | _ =>
          simp only [Node.record?, Option.map_none, Option.toList_none, List.length_nil] at h
          omega

/-- The objects among the items of a list stand in the list, inside no other object. -/
theorem outermost_listObjects {items : List Node} {first : Nat} {o : Occurrence}
    (h : o ∈ listObjects first items) : (Node.list items).Outermost first o := by
  induction items generalizing first with
  | nil => simp [listObjects, numberItems] at h
  | cons n rest ih =>
      rw [listObjects_cons, List.mem_append] at h
      rcases h with h | h
      · cases n with
        | object kind className configurable configured recorded =>
            simp only [Node.record?, Option.map_some, Option.toList_some, List.mem_singleton] at h
            subst h
            refine ⟨List.mem_append_left _ List.mem_cons_self, first, ?_, rfl⟩
            exact List.mem_append_left _ (List.mem_singleton.2 rfl)
        | _ => simp [Node.record?] at h
      · rcases ih h with ⟨hmem, k, hk, hnumber⟩
        exact ⟨List.mem_append_right _ hmem, k, List.mem_append_right _ hk, hnumber⟩

/-- Names of objects lead to the blueprints that these names lead to one by one. -/
theorem resolve_names {order : DependencyOrder} {built : List (String × Blueprint)}
    {os : List Occurrence} {names : List String}
    (hnames : os.map (fun o => order.nameOf? o) = names.map some)
    (h : ∀ o ∈ os, Resolved order built o) :
    names.map (Blueprint.resolve built) = os.map (Occurrence.blueprint order) := by
  induction os generalizing names with
  | nil =>
      rw [List.map_nil, eq_comm, List.map_eq_nil_iff] at hnames
      rw [hnames]
      rfl
  | cons o rest ih =>
      cases names with
      | nil => simp at hnames
      | cons name names =>
          rw [List.map_cons, List.map_cons, List.cons.injEq] at hnames
          rw [List.forall_mem_cons] at h
          rw [List.map_cons, List.map_cons, h.1.resolve hnames.1, ih hnames.2 h.2]

/-- A list is one of texts or one of objects, and is refused otherwise. -/
theorem property_list (order : DependencyOrder) (path : String) (items : List Node) (first : Nat) :
    property order path (.list items) first =
      if (listTexts items).length = items.length then .ok (.list (listTexts items))
      else if (listObjects first items).length = items.length then
        (references order path 0 (listObjects first items)).map .componentList
      else .error ⟨path, .mixedList⟩ := rfl

/-- The texts of a map of primitives are its blueprint. -/
theorem mapTexts_ok {order : DependencyOrder} {path : String} {entries : Fields}
    {texts : List (String × String)} (first : Nat) (h : mapTexts path entries = .ok texts) :
    texts.map (fun e => (e.1, Blueprint.text e.2)) =
      Node.blueprintFields order first entries := by
  induction entries generalizing first texts with
  | nil =>
      simp only [mapTexts, Except.ok.injEq] at h
      rw [← h]
      rfl
  | cons e rest ih =>
      rcases e with ⟨key, n⟩
      cases n with
      | primitive value =>
          rw [mapTexts, Node.primitive?] at h
          cases hrest : mapTexts path rest with
          | error fault => simp [hrest, Except.map] at h
          | ok more =>
              simp only [hrest, Except.map, Except.ok.injEq] at h
              rw [← h, List.map_cons, Node.blueprintFields, Node.blueprint, ih _ hrest]
      | _ => simp [mapTexts, Node.primitive?] at h

/-- The property that a configured field becomes leads back to the blueprint of the field, if the
names of the objects in it do. -/
theorem ofProperty_property {order : DependencyOrder} {built : List (String × Blueprint)}
    {path : String} {n : Node} {first : Nat} {value : Property}
    (h : property order path n first = .ok value)
    (hbuilt : ∀ o, n.Outermost first o → o.record.configurable = true → Resolved order built o) :
    Blueprint.ofProperty built value = n.blueprint order first := by
  cases n with
  | primitive x =>
      simp only [property, Except.ok.injEq] at h
      rw [← h]
      rfl
  | map entries =>
      rw [property] at h
      cases htexts : mapTexts path entries with
      | error fault => simp [htexts, Except.map] at h
      | ok texts =>
          simp only [htexts, Except.map, Except.ok.injEq] at h
          rw [← h, Blueprint.ofProperty, Node.blueprint, mapTexts_ok first htexts]
  | list items =>
      rw [property_list] at h
      split at h
      · rename_i hlength
        simp only [Except.ok.injEq] at h
        rw [← h, Blueprint.ofProperty, Node.blueprint,
          listTexts_eq_blueprintItems order first hlength]
      · split at h
        · rename_i hlength
          cases hnames : references order path 0 (listObjects first items) with
          | error fault => simp [hnames, Except.map] at h
          | ok names =>
              simp only [hnames, Except.map, Except.ok.injEq] at h
              rcases references_ok hnames with ⟨hconf, hnames⟩
              rw [← h, Blueprint.ofProperty, Node.blueprint,
                ← listObjects_eq_blueprintItems order hlength]
              rw [resolve_names hnames fun o ho =>
                hbuilt o (outermost_listObjects ho) (hconf o ho)]
        · simp at h
  | object kind className configurable configured recorded =>
      rw [property] at h
      cases hname : reference order path
          ⟨⟨kind, className, configurable, configured, recorded⟩, first + 1⟩ with
      | error fault => simp [hname, Except.map] at h
      | ok name =>
          simp only [hname, Except.map, Except.ok.injEq] at h
          rcases reference_ok hname with ⟨hconf, hname⟩
          rw [← h, Blueprint.ofProperty]
          refine (hbuilt _ ⟨List.mem_cons_self, first, List.mem_singleton.2 rfl, rfl⟩ hconf).resolve
            hname

/-- What a property refers to is a configurable object of the field, under its name. -/
theorem exists_of_mem_references {order : DependencyOrder} {path name : String} {n : Node}
    {first : Nat} {value : Property} (h : property order path n first = .ok value)
    (hname : name ∈ value.references) :
    ∃ o, n.Outermost first o ∧ o.record.configurable = true ∧ order.nameOf? o = some name := by
  cases n with
  | primitive x =>
      simp only [property, Except.ok.injEq] at h
      simp [← h, Property.references] at hname
  | map entries =>
      rw [property] at h
      cases htexts : mapTexts path entries with
      | error fault => simp [htexts, Except.map] at h
      | ok texts =>
          simp only [htexts, Except.map, Except.ok.injEq] at h
          simp [← h, Property.references] at hname
  | list items =>
      rw [property_list] at h
      split at h
      · simp only [Except.ok.injEq] at h
        simp [← h, Property.references] at hname
      · split at h
        · cases hnames : references order path 0 (listObjects first items) with
          | error fault => simp [hnames, Except.map] at h
          | ok names =>
              simp only [hnames, Except.map, Except.ok.injEq] at h
              rcases references_ok hnames with ⟨hconf, hnames⟩
              rw [← h, Property.references] at hname
              have hmem := List.mem_map_of_mem (f := some) hname
              rw [← hnames] at hmem
              rcases List.mem_map.1 hmem with ⟨o, ho, hoName⟩
              exact ⟨o, outermost_listObjects ho, hconf o ho, hoName⟩
        · simp at h
  | object kind className configurable configured recorded =>
      rw [property] at h
      cases href : reference order path
          ⟨⟨kind, className, configurable, configured, recorded⟩, first + 1⟩ with
      | error fault => simp [href, Except.map] at h
      | ok found =>
          simp only [href, Except.map, Except.ok.injEq] at h
          rw [← h, Property.references, List.mem_singleton] at hname
          rcases reference_ok href with ⟨hconf, hfound⟩
          exact ⟨_, ⟨List.mem_cons_self, first, List.mem_singleton.2 rfl, rfl⟩, hconf,
            hname ▸ hfound⟩

end Extraction
end Retrace
