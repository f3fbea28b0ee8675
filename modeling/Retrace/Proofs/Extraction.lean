import Retrace.Proofs.Blueprint

/-!
# Extraction is faithful

An extraction turns every configurable object of a tree into one configuration, in dependency order
and under a name of its own.  What a configuration refers to stands before it, so configurations are
assembled from the first to the last, and what is assembled under the name of an object is the
object's blueprint.

Main results:

- Theorem `configuration_ok`: what the configuration of one object holds.
- Theorem `extract_faithful`: configurations stand for exactly the configurable objects, refer only
  to earlier ones and lead back to the configured trees.
-/

namespace Retrace

/-! ## Fields at their places -/

namespace Extraction

theorem blueprintFields_eq_map (order : DependencyOrder) (first : Nat) (fields : Fields) :
    Node.blueprintFields order first fields =
      (numberFields first fields).map fun e => (e.1, e.2.1.blueprint order e.2.2) := by
  induction fields generalizing first with
  | nil => rfl
  | cons e rest ih => rw [Node.blueprintFields, numberFields, List.map_cons, ih]

theorem numberFields_append (first : Nat) (a b : Fields) :
    numberFields first (a ++ b) =
      numberFields first a ++ numberFields (first + Node.objectsFields a) b := by
  induction a generalizing first with
  | nil => rfl
  | cons e a ih =>
      rw [List.cons_append, numberFields, numberFields, ih, List.cons_append, Node.objectsFields,
        Nat.add_assoc]

/-- What stands outermost in a field stands outermost among the fields. -/
theorem outermost_numberFields {first : Nat} {fields : Fields} {e : String × Node × Nat}
    (he : e ∈ numberFields first fields) {o : Occurrence} (ho : e.2.1.Outermost e.2.2 o) :
    o ∈ Node.occurrencesFields first fields ∧
      ∃ k ∈ Node.outermostFields first fields, o.number? = some k := by
  induction fields generalizing first with
  | nil => simp [numberFields] at he
  | cons f rest ih =>
      rcases List.mem_cons.1 he with rfl | he
      · rcases ho with ⟨hmem, k, hk, hnumber⟩
        exact ⟨List.mem_append_left _ hmem, k, List.mem_append_left _ hk, hnumber⟩
      · rcases ih he with ⟨hmem, k, hk, hnumber⟩
        exact ⟨List.mem_append_right _ hmem, k, List.mem_append_right _ hk, hnumber⟩

/-- What stands outermost in a configured field of an object of a tree has an earlier position. -/
theorem position_lt_of_outermost {root : Record} {p : Nat} {o i : Occurrence}
    (ho : (DependencyOrder.ofRecord root).get? p = some o) {e : String × Node × Nat}
    (he : e ∈ numberFields o.first o.record.configured) (hi : e.2.1.Outermost e.2.2 i) :
    ∃ q, q < p ∧ (DependencyOrder.ofRecord root).get? q = some i := by
  have hfield : e ∈ numberFields o.first o.record.fields := by
    rw [Record.fields, numberFields_append]
    exact List.mem_append_left _ he
  rcases outermost_numberFields hfield hi with ⟨hmem, k, hk, hnumber⟩
  have htree : o ∈ root.occurrences := (DependencyOrder.get?_eq_some_iff.1 ho).1
  exact DependencyOrder.position_lt_of_mem_direct ho hk
    (Record.mem_occurrences_of_inside htree hmem) hnumber

/-! ## One configuration -/

/-- The property that a field of the component with a name becomes, if it becomes one. -/
def propertyOf (order : DependencyOrder) (name : String) (e : String × Node × Nat) : Property :=
  match property order (name ++ "." ++ e.1) e.2.1 e.2.2 with
  | .ok value => value
  | .error _ => .list []

/-- Configured fields become properties by key, each from its own field. -/
theorem configure_ok {order : DependencyOrder} {c d : Configuration}
    {fields : List (String × Node × Nat)} (h : configure order c fields = .ok d) :
    d.name = c.name ∧ d.className = c.className ∧
      (∀ e ∈ fields, property order (c.name ++ "." ++ e.1) e.2.1 e.2.2 =
        .ok (propertyOf order c.name e)) ∧
      d.properties = (fields.map fun e => (e.1, propertyOf order c.name e)).foldl
        (fun acc e => Keyed.insert e.1 e.2 acc) c.properties := by
  induction fields generalizing c with
  | nil =>
      simp only [configure, Except.ok.injEq] at h
      simp [← h]
  | cons e rest ih =>
      rcases e with ⟨key, n, first⟩
      rw [configure] at h
      cases hvalue : property order (c.name ++ "." ++ key) n first with
      | error fault => simp [hvalue] at h
      | ok value =>
          simp only [hvalue] at h
          rcases ih h with ⟨hname, hclass, hfields, hproperties⟩
          have hof : propertyOf order c.name (key, n, first) = value := by
            simp [propertyOf, hvalue]
          refine ⟨hname, hclass, List.forall_mem_cons.2 ⟨?_, hfields⟩, ?_⟩
          · rw [hof]
            exact hvalue
          · rw [hproperties, List.map_cons, List.foldl_cons, hof]
            rfl

/-- The configuration of an object that is not configurable is left out. -/
theorem configuration_eq_none {order : DependencyOrder} {p : Nat} {o : Occurrence}
    {found : Option Configuration} (h : configuration order p o = .ok found)
    (hconf : o.record.configurable = false) : found = none := by
  simp only [configuration, hconf] at h
  split at h
  · simp at h
  · simpa using h.symm

/-- Whether a configuration holds what an object is configured with. -/
structure Configures (order : DependencyOrder) (c : Configuration) (o : Occurrence) : Prop where
  className : c.className = o.record.className
  fields : ∀ e ∈ numberFields o.first o.record.configured,
    property order (c.name ++ "." ++ e.1) e.2.1 e.2.2 = .ok (propertyOf order c.name e)
  properties : c.properties = Keyed.ofList ((numberFields o.first o.record.configured).map
    fun e => (e.1, propertyOf order c.name e))

/-- The configuration of one object holds what the object is configured with. -/
theorem configuration_ok {order : DependencyOrder} {p : Nat} {o : Occurrence}
    {found : Option Configuration} (h : configuration order p o = .ok found)
    (hconf : o.record.configurable = true) :
    ∃ c, found = some c ∧ c.name = componentName o.record.className p ∧ Configures order c o := by
  simp only [configuration, hconf, if_true] at h
  split at h
  · simp at h
  · cases hc : configure order ⟨componentName o.record.className p, o.record.className, []⟩
        (numberFields o.first o.record.configured) with
    | error fault => simp [hc, Except.map] at h
    | ok c =>
        simp only [hc, Except.map, Except.ok.injEq] at h
        rcases configure_ok hc with ⟨hname, hclass, hfields, hproperties⟩
        rw [← hname] at hfields hproperties
        exact ⟨c, h.symm, hname, hclass, hfields, hproperties⟩

/-- A configuration leads back to the blueprint of its object, if the objects before it have been
assembled. -/
theorem ofConfiguration_eq {root : Record} {built : List (String × Blueprint)} {p : Nat}
    {o : Occurrence} {c : Configuration}
    (h : configuration (DependencyOrder.ofRecord root) p o = .ok (some c))
    (hconf : o.record.configurable = true)
    (ho : (DependencyOrder.ofRecord root).get? p = some o)
    (hbuilt : ∀ q i, q < p → (DependencyOrder.ofRecord root).get? q = some i →
      i.record.configurable = true → Resolved (DependencyOrder.ofRecord root) built i) :
    Blueprint.ofConfiguration built c = o.blueprint (DependencyOrder.ofRecord root) := by
  rcases configuration_ok h hconf with ⟨d, hd, hname, hholds⟩
  obtain rfl := Option.some.inj hd
  have hvalues : ∀ e ∈ numberFields o.first o.record.configured,
      Blueprint.ofProperty built (propertyOf (DependencyOrder.ofRecord root) c.name e) =
        e.2.1.blueprint (DependencyOrder.ofRecord root) e.2.2 := by
    intro e he
    apply ofProperty_property (hholds.fields e he)
    intro i hi hiconf
    rcases position_lt_of_outermost ho he hi with ⟨q, hq, hget⟩
    exact hbuilt q i hq hget hiconf
  have hnamed : (DependencyOrder.ofRecord root).nameOf? o = some c.name := by
    rw [DependencyOrder.nameOf?, (DependencyOrder.get?_eq_some_iff.1 ho).2, hname]
    rfl
  rw [Blueprint.ofConfiguration, Occurrence.blueprint, hnamed, hholds.className,
    hholds.properties, ← Keyed.ofList_map, List.map_map, blueprintFields_eq_map]
  have hmap := List.map_congr_left fun e he => congrArg (Prod.mk e.1) (hvalues e he)
  rw [← hmap]
  rfl

/-- A configuration refers to configurable objects with earlier positions. -/
theorem exists_of_mem_configuration {root : Record} {p : Nat} {o : Occurrence} {c : Configuration}
    (h : configuration (DependencyOrder.ofRecord root) p o = .ok (some c))
    (hconf : o.record.configurable = true)
    (ho : (DependencyOrder.ofRecord root).get? p = some o) {e : String × Property}
    (he : e ∈ c.properties) {name : String} (hname : name ∈ e.2.references) :
    ∃ q i, q < p ∧ (DependencyOrder.ofRecord root).get? q = some i ∧
      i.record.configurable = true ∧ name = componentName i.record.className q := by
  rcases configuration_ok h hconf with ⟨d, hd, -, hholds⟩
  obtain rfl := Option.some.inj hd
  rw [hholds.properties] at he
  rcases List.mem_map.1 (Keyed.mem_of_mem_ofList he) with ⟨f, hf, rfl⟩
  rcases exists_of_mem_references (hholds.fields f hf) hname with ⟨i, hi, hiconf, hiname⟩
  rcases position_lt_of_outermost ho hf hi with ⟨q, hq, hget⟩
  refine ⟨q, i, hq, hget, hiconf, ?_⟩
  rw [DependencyOrder.nameOf?, (DependencyOrder.get?_eq_some_iff.1 hget).2] at hiname
  exact (Option.some.inj hiname).symm

end Extraction

/-! ## All configurations -/

namespace DependencyOrder

/-- The rows of configurable objects. -/
def configurableRows (rows : List (Nat × Occurrence)) : List (Nat × Occurrence) :=
  rows.filter fun row => row.2.record.configurable

/-- The name that a row gives its object. -/
def rowName (row : Nat × Occurrence) : String :=
  componentName row.2.record.className row.1

/-- The blueprints of the configurable objects of rows, under their names. -/
def blueprints (order : DependencyOrder) (rows : List (Nat × Occurrence)) :
    List (String × Blueprint) :=
  (configurableRows rows).map fun row => (rowName row, row.2.blueprint order)

/-- Of two lists of rows the configurable ones follow each other. -/
theorem configurableRows_append (a b : List (Nat × Occurrence)) :
    configurableRows (a ++ b) = configurableRows a ++ configurableRows b :=
  List.filter_append a b

/-- A row is configurable if its object is. -/
theorem configurableRows_singleton (row : Nat × Occurrence) :
    configurableRows [row] = if row.2.record.configurable = true then [row] else [] := by
  rw [configurableRows, List.filter_cons]
  rfl

/-- The positions of the rows are those of the order. -/
theorem map_fst_rows (root : Record) :
    (ofRecord root).rows.map Prod.fst = List.range (ofRecord root).size := by
  apply List.ext_getElem?
  intro p
  rw [List.getElem?_map, getElem?_rows]
  rcases Nat.lt_or_ge p (ofRecord root).size with hp | hp
  · rcases exists_get?_of_lt hp with ⟨o, ho⟩
    rw [ho, List.getElem?_range hp]
    rfl
  · have hnone : (ofRecord root).sequence[p]? = none := List.getElem?_eq_none hp
    rw [List.getElem?_eq_none (by simpa using hp)]
    simp [get?, hnone]

/-- A row stands at its position. -/
theorem get?_of_mem_rows {root : Record} {row : Nat × Occurrence} (h : row ∈ (ofRecord root).rows) :
    (ofRecord root).get? row.1 = some row.2 := by
  rcases List.mem_iff_getElem?.1 h with ⟨p, hp⟩
  rw [getElem?_rows, Option.map_eq_some_iff] at hp
  rcases hp with ⟨o, ho, rfl⟩
  exact ho

/-- A row gives an object of the tree its name. -/
theorem nameOf?_of_mem_rows {root : Record} {row : Nat × Occurrence}
    (h : row ∈ (ofRecord root).rows) :
    row.2 ∈ root.occurrences ∧ (ofRecord root).nameOf? row.2 = some (rowName row) := by
  obtain ⟨hmem, hposition⟩ := get?_eq_some_iff.1 (get?_of_mem_rows h)
  refine ⟨hmem, ?_⟩
  rw [nameOf?, hposition]
  rfl

/-- Every object of a tree has a row. -/
theorem exists_mem_rows {root : Record} {o : Occurrence} (ho : o ∈ root.occurrences) :
    ∃ row ∈ (ofRecord root).rows, row.2 = o := by
  rcases exists_get? ho with ⟨p, hget⟩
  have hrow := getElem?_rows root p
  rw [hget] at hrow
  exact ⟨(p, o), List.mem_of_getElem? hrow, rfl⟩

/-- No two rows give the same name. -/
theorem nodup_rowNames (root : Record) : ((ofRecord root).rows.map rowName).Nodup := by
  have hpositions : ((ofRecord root).rows.map Prod.fst).Nodup := by
    rw [map_fst_rows]
    exact List.nodup_range
  rw [List.Nodup, List.pairwise_map] at hpositions ⊢
  exact hpositions.imp fun hne hname => hne (componentName_injective hname)

/-- Objects with one name are one object. -/
theorem eq_of_nameOf? {root : Record} {o i : Occurrence} (ho : o ∈ root.occurrences)
    (hi : i ∈ root.occurrences) {name : String} (honame : (ofRecord root).nameOf? o = some name)
    (hiname : (ofRecord root).nameOf? i = some name) : o = i := by
  rw [nameOf?, Option.map_eq_some_iff] at honame hiname
  rcases honame with ⟨p, hp, rfl⟩
  rcases hiname with ⟨q, hq, heq⟩
  rw [componentName_injective heq] at hq
  have hget := get?_eq_some_iff.2 ⟨ho, hp⟩
  rw [get?_eq_some_iff.2 ⟨hi, hq⟩, Option.some.injEq] at hget
  exact hget.symm

/-- The rows before a row are those with smaller positions. -/
theorem rows_eq_append {root : Record} {before after : List (Nat × Occurrence)} {p : Nat}
    {o : Occurrence} (h : (ofRecord root).rows = before ++ (p, o) :: after) :
    (ofRecord root).get? p = some o ∧
      ∀ q i, q < p → (ofRecord root).get? q = some i → (q, i) ∈ before := by
  have hrow := getElem?_rows root before.length
  rw [h, List.getElem?_append_right (Nat.le_refl _), Nat.sub_self, List.getElem?_cons_zero,
    eq_comm, Option.map_eq_some_iff] at hrow
  rcases hrow with ⟨found, hfound, heq⟩
  rw [Prod.mk.injEq] at heq
  rcases heq with ⟨rfl, rfl⟩
  refine ⟨hfound, fun q i hq hi => ?_⟩
  have hearlier := getElem?_rows root q
  rw [hi, h, List.getElem?_append_left hq] at hearlier
  exact List.mem_of_getElem? hearlier

/-- An object stands in one row. -/
theorem exists_rows_eq {root : Record} {p : Nat} {o : Occurrence}
    (h : (ofRecord root).get? p = some o) :
    ∃ before after, (ofRecord root).rows = before ++ (p, o) :: after ∧
      ∀ row ∈ before ++ after, row.2 ≠ o := by
  have hrow : (p, o) ∈ (ofRecord root).rows := by
    have hrow := getElem?_rows root p
    rw [h] at hrow
    exact List.mem_of_getElem? hrow
  rcases List.append_of_mem hrow with ⟨before, after, hrows⟩
  refine ⟨before, after, hrows, fun row hmem heq => ?_⟩
  have hnodup := nodup_rowNames root
  rw [hrows, (List.perm_middle.map rowName).nodup_iff, List.map_cons, List.nodup_cons] at hnodup
  have hget : (ofRecord root).get? row.1 = some row.2 := by
    apply get?_of_mem_rows
    rw [hrows]
    exact (List.perm_middle.mem_iff).2 (List.mem_cons_of_mem _ hmem)
  rw [heq] at hget
  have hposition : row.1 = p := by
    have hfirst := (get?_eq_some_iff.1 hget).2
    rw [(get?_eq_some_iff.1 h).2] at hfirst
    exact (Option.some.inj hfirst).symm
  rw [show row = (p, o) from Prod.ext hposition heq] at hmem
  exact hnodup.1 (List.mem_map_of_mem hmem)

end DependencyOrder

namespace Extraction

open DependencyOrder

/-- The configuration of a first row comes first, if it has one. -/
theorem configurations_cons {order : DependencyOrder} {row : Nat × Occurrence}
    {rest : List (Nat × Occurrence)} {configs : List Configuration}
    (h : configurations order (row :: rest) = .ok configs) :
    ∃ found more, configuration order row.1 row.2 = .ok found ∧
      configurations order rest = .ok more ∧ configs = found.toList ++ more := by
  rcases row with ⟨p, o⟩
  rw [configurations] at h
  cases hfound : configuration order p o with
  | error fault => simp [hfound] at h
  | ok found =>
      cases hmore : configurations order rest with
      | error fault => simp [hfound, hmore, Except.map] at h
      | ok more =>
          simp only [hfound, hmore, Except.map, Except.ok.injEq] at h
          exact ⟨found, more, rfl, rfl, h.symm⟩

/-- There is one configuration for each configurable row, in order. -/
theorem map_configurations {order : DependencyOrder} {rows : List (Nat × Occurrence)}
    {configs : List Configuration} (h : configurations order rows = .ok configs) :
    configs.map (fun c => (c.name, c.className)) =
      (configurableRows rows).map fun row => (rowName row, row.2.record.className) := by
  induction rows generalizing configs with
  | nil =>
      simp only [configurations, Except.ok.injEq] at h
      rw [← h]
      rfl
  | cons row rest ih =>
      rcases configurations_cons h with ⟨found, more, hfound, hmore, rfl⟩
      rw [List.map_append, ih hmore, ← List.singleton_append, configurableRows_append,
        configurableRows_singleton, List.map_append]
      cases hconf : row.2.record.configurable with
      | false =>
          rw [configuration_eq_none hfound hconf]
          rfl
      | true =>
          rcases configuration_ok hfound hconf with ⟨c, rfl, hname, hholds⟩
          simp [hname, hholds.className, rowName]

/-- What was assembled from the rows before a row resolves the objects in them. -/
theorem resolved_blueprints {root : Record} {before after : List (Nat × Occurrence)}
    (h : (ofRecord root).rows = before ++ after) {row : Nat × Occurrence} (hrow : row ∈ before)
    (hconf : row.2.record.configurable = true) :
    Resolved (ofRecord root) (blueprints (ofRecord root) before) row.2 := by
  intro name hname
  have hget : (ofRecord root).get? row.1 = some row.2 :=
    get?_of_mem_rows (h ▸ List.mem_append_left _ hrow)
  have hrowName : name = rowName row := by
    rw [nameOf?, (get?_eq_some_iff.1 hget).2] at hname
    exact (Option.some.inj hname).symm
  have hnodup : ((blueprints (ofRecord root) before).map Prod.fst).Nodup := by
    have hall := nodup_rowNames root
    rw [h, List.map_append, List.nodup_append] at hall
    rw [blueprints, List.map_map]
    exact hall.1.sublist (List.filter_sublist.map rowName)
  rw [hrowName]
  exact Keyed.lookup_of_mem hnodup (List.mem_map.2 ⟨row, List.mem_filter.2 ⟨hrow, hconf⟩, rfl⟩)

/-- Assembling the configurations of rows gives the blueprints of their objects. -/
theorem assemble_configurations {root : Record} {before after : List (Nat × Occurrence)}
    {configs : List Configuration} (hrows : (ofRecord root).rows = before ++ after)
    (h : configurations (ofRecord root) after = .ok configs) :
    Blueprint.assemble (blueprints (ofRecord root) before) configs =
      blueprints (ofRecord root) (before ++ after) := by
  induction after generalizing before configs with
  | nil =>
      simp only [configurations, Except.ok.injEq] at h
      rw [← h, List.append_nil]
      rfl
  | cons row rest ih =>
      rcases configurations_cons h with ⟨found, more, hfound, hmore, rfl⟩
      have hnext : (ofRecord root).rows = (before ++ [row]) ++ rest := by simp [hrows]
      have hrest := ih hnext hmore
      rw [List.append_assoc, List.singleton_append] at hrest
      rw [← hrest]
      cases hconf : row.2.record.configurable with
      | false =>
          rw [configuration_eq_none hfound hconf]
          simp [blueprints, configurableRows_append, configurableRows_singleton, hconf]
      | true =>
          rcases configuration_ok hfound hconf with ⟨c, rfl, hname, -⟩
          rcases rows_eq_append hrows with ⟨hget, hbefore⟩
          have hbuilt : ∀ q i, q < row.1 → (ofRecord root).get? q = some i →
              i.record.configurable = true →
                Resolved (ofRecord root) (blueprints (ofRecord root) before) i := by
            intro q i hq hi hiconf
            exact @resolved_blueprints root before _ hrows (q, i) (hbefore q i hq hi) hiconf
          have hc := ofConfiguration_eq hfound hconf hget hbuilt
          rw [Option.toList_some, List.singleton_append, Blueprint.assemble, hc, hname]
          simp [blueprints, configurableRows_append, configurableRows_singleton, hconf, rowName]

/-- What a configuration refers to stands before it. -/
theorem references_configurations {root : Record} {before after : List (Nat × Occurrence)}
    {configs : List Configuration} (hrows : (ofRecord root).rows = before ++ after)
    (h : configurations (ofRecord root) after = .ok configs) {i : Nat} {c : Configuration}
    (hc : configs[i]? = some c) {e : String × Property} (he : e ∈ c.properties) {name : String}
    (hname : name ∈ e.2.references) :
    name ∈ (configurableRows before).map rowName ++ (configs.take i).map Configuration.name := by
  induction after generalizing before configs i with
  | nil =>
      simp only [configurations, Except.ok.injEq] at h
      simp [← h] at hc
  | cons row rest ih =>
      rcases configurations_cons h with ⟨found, more, hfound, hmore, rfl⟩
      have hnext : (ofRecord root).rows = (before ++ [row]) ++ rest := by simp [hrows]
      cases hconf : row.2.record.configurable with
      | false =>
          rw [configuration_eq_none hfound hconf] at hc ⊢
          have hrest := ih hnext hmore hc
          rwa [configurableRows_append, configurableRows_singleton, hconf, if_neg (by simp),
            List.append_nil] at hrest
      | true =>
          rcases configuration_ok hfound hconf with ⟨d, rfl, hdname, -⟩
          rw [Option.toList_some, List.singleton_append] at hc ⊢
          cases i with
          | zero =>
              rw [List.getElem?_cons_zero, Option.some.injEq] at hc
              subst hc
              rcases rows_eq_append hrows with ⟨hget, hbefore⟩
              obtain ⟨q, o, hq, ho, hoconf, rfl⟩ :=
                exists_of_mem_configuration hfound hconf hget he hname
              exact List.mem_append_left _
                (List.mem_map.2 ⟨(q, o), List.mem_filter.2 ⟨hbefore q o hq ho, hoconf⟩, rfl⟩)
          | succ i =>
              have hrest := ih hnext hmore hc
              rw [configurableRows_append, configurableRows_singleton, if_pos hconf,
                List.map_append, List.append_assoc] at hrest
              rw [List.take_succ_cons, List.map_cons, hdname]
              exact hrest

/-- Each row gives its configuration, and this is among those of all rows. -/
theorem configuration_of_mem {order : DependencyOrder} {rows : List (Nat × Occurrence)}
    {configs : List Configuration} (h : configurations order rows = .ok configs)
    {row : Nat × Occurrence} (hrow : row ∈ rows) :
    ∃ found, configuration order row.1 row.2 = .ok found ∧ ∀ c ∈ found, c ∈ configs := by
  induction rows generalizing configs with
  | nil => simp at hrow
  | cons next rest ih =>
      rcases configurations_cons h with ⟨found, more, hfound, hmore, rfl⟩
      rcases List.mem_cons.1 hrow with rfl | hrow
      · refine ⟨found, hfound, fun c hc => List.mem_append_left _ ?_⟩
        exact Option.mem_toList.2 hc
      · rcases ih hmore hrow with ⟨other, hother, hmem⟩
        exact ⟨other, hother, fun c hc => List.mem_append_right _ (hmem c hc)⟩

/-- Numbering fields leaves what is found last. -/
theorem lookupLast_numberFields (key : String) (first : Nat) (fields : Fields) :
    (Keyed.lookupLast key (numberFields first fields)).map Prod.fst =
      Keyed.lookupLast key fields := by
  have hnodes : (numberFields first fields).map (fun e => (e.1, e.2.1)) = fields := by
    induction fields generalizing first with
    | nil => rfl
    | cons e rest ih => rw [numberFields, List.map_cons, ih]
  have hmap := Keyed.lookupLast_map (fun _ (v : Node × Nat) => v.1) key (numberFields first fields)
  rw [hnodes] at hmap
  exact hmap.symm

/-- The last field of a key is the property under the key. -/
theorem Configures.property?_eq {order : DependencyOrder} {c : Configuration} {o : Occurrence}
    (h : Configures order c o) (key : String) :
    c.property? key = (Keyed.lookupLast key (numberFields o.first o.record.configured)).map
      fun v => propertyOf order c.name (key, v) := by
  rw [Configuration.property?, h.properties, Keyed.lookup_ofList,
    ← Keyed.lookupLast_map fun k v => propertyOf order c.name (k, v)]

/-- A primitive field is a property with its text. -/
theorem Configures.property?_primitive {order : DependencyOrder} {c : Configuration}
    {o : Occurrence} (h : Configures order c o) {key : String} {value : Primitive}
    (hkey : Keyed.lookupLast key o.record.configured = some (.primitive value)) :
    c.property? key = some (.value value.render) := by
  rw [← lookupLast_numberFields key o.first, Option.map_eq_some_iff] at hkey
  rcases hkey with ⟨⟨n, first⟩, hfound, rfl⟩
  rw [h.property?_eq, hfound]
  rfl

end Extraction

namespace Record

open DependencyOrder

/-- A configurable object of a tree has a configuration under its name. -/
theorem exists_configuration {root : Record} {configs : List Configuration}
    (h : root.extract = .ok configs) {o : Occurrence} (ho : o ∈ root.occurrences)
    (hconf : o.record.configurable = true) {name : String}
    (hname : (ofRecord root).nameOf? o = some name) :
    ∃ c ∈ configs, c.name = name ∧ Extraction.Configures (ofRecord root) c o := by
  rcases exists_get? ho with ⟨p, hget⟩
  have hrow : (p, o) ∈ (ofRecord root).rows := by
    have hget' := getElem?_rows root p
    rw [hget] at hget'
    exact List.mem_of_getElem? hget'
  rcases Extraction.configuration_of_mem h hrow with ⟨found, hfound, hmem⟩
  rcases Extraction.configuration_ok hfound hconf with ⟨c, rfl, hcname, hholds⟩
  refine ⟨c, hmem c rfl, ?_, hholds⟩
  rw [nameOf?, (get?_eq_some_iff.1 hget).2] at hname
  rw [hcname]
  exact Option.some.inj hname

/-- The configurations of a tree have different names. -/
theorem nodup_configurationNames {root : Record} {configs : List Configuration}
    (h : root.extract = .ok configs) : (configs.map Configuration.name).Nodup := by
  have hkeys := congrArg (List.map Prod.fst) (Extraction.map_configurations h)
  rw [List.map_map, List.map_map] at hkeys
  change configs.map Configuration.name = _ at hkeys
  rw [hkeys]
  exact (nodup_rowNames root).sublist (List.filter_sublist.map rowName)

/-- The configurations of a tree stand for exactly its configurable objects, each under a name of
its own; they refer only to earlier ones, and assembled one after the other they give the blueprint
of every configurable object. -/
theorem extract_faithful {root : Record} {configs : List Configuration}
    (h : root.extract = .ok configs) :
    ((ofRecord root).rows.map Prod.snd).Perm root.occurrences ∧
    configs.map (fun c => (c.name, c.className)) =
      (configurableRows (ofRecord root).rows).map
        (fun row => (rowName row, row.2.record.className)) ∧
    (configs.map Configuration.name).Nodup ∧
    (∀ (i : Nat) (c : Configuration), configs[i]? = some c →
      ∀ e ∈ c.properties, ∀ name ∈ e.2.references,
        ∃ (j : Nat) (d : Configuration), j < i ∧ configs[j]? = some d ∧ d.name = name) ∧
    Blueprint.assemble [] configs = blueprints (ofRecord root) (ofRecord root).rows := by
  have hnames := Extraction.map_configurations h
  refine ⟨rows_perm_occurrences root, hnames, nodup_configurationNames h, ?_,
    @Extraction.assemble_configurations root [] _ _ rfl h⟩
  intro i c hc e he name hname
  have hmem := @Extraction.references_configurations root [] _ _ rfl h _ _ hc _ he _ hname
  rw [show configurableRows [] = [] from rfl, List.map_nil, List.nil_append] at hmem
  rcases List.mem_map.1 hmem with ⟨d, hd, rfl⟩
  rcases List.mem_iff_getElem?.1 hd with ⟨j, hj⟩
  have hji : j < i := by
    have := (List.getElem?_eq_some_iff.1 hj).1
    rw [List.length_take] at this
    omega
  rw [List.getElem?_take_of_lt hji] at hj
  exact ⟨j, d, hji, hj, rfl⟩

/-- A tree in which three equal kernels stand at different places, one of them with a repeated key,
and an object that is not configurable stands between them. -/
def twins : Record :=
  observed .model "svm.Model"
    [("left", .object .component "kernels.RBF" true [("gamma", .long 1), ("gamma", .long 2)]
        [("uses", .long 7)]),
      ("source", .object .dataSource "Memory" false [] []),
      ("pair", .object .trainer "Pair" true
        [("kernels", .list [.object .component "kernels.RBF" true [("gamma", .long 2)] [],
            .object .component "kernels.RBF" true [("gamma", .long 2)] []]),
          ("labels", .map [("a", .text "x")])] [])]

/-- The list of a pair leads to the two kernels in it and not to the equal one beside it. -/
theorem extract_faithful_twins :
    twins.extract = .ok
        [⟨"rbf-0", "kernels.RBF", [("gamma", .value "2")]⟩,
          ⟨"rbf-2", "kernels.RBF", [("gamma", .value "2")]⟩,
          ⟨"rbf-3", "kernels.RBF", [("gamma", .value "2")]⟩,
          ⟨"pair-4", "Pair",
            [("kernels", .componentList ["rbf-2", "rbf-3"]), ("labels", .map [("a", "x")])]⟩] ∧
      Keyed.lookup "pair-4" (blueprints (ofRecord twins) (ofRecord twins).rows) =
        some (.object (some "pair-4") "Pair"
          [("kernels", .list
              [.object (some "rbf-2") "kernels.RBF" [("gamma", .text "2")],
                .object (some "rbf-3") "kernels.RBF" [("gamma", .text "2")]]),
            ("labels", .map [("a", .text "x")])]) := by
  refine ⟨rfl, ?_⟩
  rcases extract_faithful (rfl : twins.extract = .ok _) with ⟨-, -, -, -, hassemble⟩
  rw [← hassemble]
  rfl

end Record
end Retrace
