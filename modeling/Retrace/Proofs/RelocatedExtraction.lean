import Retrace.Proofs.RelocatedRecords
import Retrace.Proofs.ReproductionUses

/-!
# Extraction from records with another path

The configurations that are extracted from a record tree whose paths were set are the ones that were
extracted before, with the paths of the data sources set.

Main results:

- Theorem `configuration_relocate`: the configuration of one object.
- Theorem `extract_relocate`: all configurations of a tree.
-/

namespace Retrace

open Reproduction (relocatedConfigs)

/-- Fields whose path is set have a path. -/
theorem Fields.hasKey_setPath (path : String) (fields : Fields) :
    Keyed.hasKey "path" (setPath path fields) = true := by
  rw [setPath]
  split
  · rename_i hpresent
    rw [Keyed.hasKey, List.any_eq_true] at hpresent ⊢
    obtain ⟨e, he, hkey⟩ := hpresent
    refine ⟨_, List.mem_map_of_mem he, ?_⟩
    rw [if_pos (beq_iff_eq.1 hkey)]
    exact hkey
  · rw [Keyed.hasKey, List.any_append]
    simp

namespace Extraction

variable {path : String} {order : DependencyOrder}

/-! ## One field -/

theorem references_relocate (place : String) (index : Nat) (os : List Occurrence) :
    references (order.relocate path) place index (os.map (Occurrence.relocate path)) =
      references order place index os := by
  induction os generalizing index with
  | nil => rfl
  | cons o rest ih =>
      rw [List.map_cons, references, references, ih]
      rfl

/-- The texts of a map do not depend on paths of objects. -/
theorem mapTexts_relocateFields (place : String) (entries : Fields) :
    mapTexts place (Node.relocateFields path entries) = mapTexts place entries := by
  induction entries with
  | nil => rfl
  | cons e rest ih =>
      rcases e with ⟨key, n⟩
      rw [Node.relocateFields, mapTexts, mapTexts, Node.primitive?_relocate,
        Node.kindName_relocate, ih]

/-- Items are numbered before and after the relocation alike. -/
theorem numberItems_relocateItems {items : List Node}
    (hplain : Node.pathsPlainItems items = true) (first : Nat) :
    numberItems first (Node.relocateItems path items) =
      (numberItems first items).map fun i => (i.1.relocate path, i.2) := by
  induction items generalizing first with
  | nil => rfl
  | cons n rest ih =>
      rw [Node.pathsPlainItems, Bool.and_eq_true] at hplain
      rw [Node.relocateItems, numberItems, numberItems, (Node.stays path n hplain.1).objects,
        ih hplain.2]
      rfl

/-- The items of a list are relocated one by one. -/
theorem relocateItems_eq_map (path : String) (items : List Node) :
    Node.relocateItems path items = items.map (Node.relocate path) := by
  induction items with
  | nil => rfl
  | cons n rest ih => rw [Node.relocateItems, List.map_cons, ih]

/-- A field becomes the property that it became before. -/
theorem property_relocate {n : Node} (hplain : n.pathsPlain = true) (place : String) (first : Nat) :
    property (order.relocate path) place (n.relocate path) first =
      property order place n first := by
  cases n with
  | primitive value => rfl
  | map entries => rw [Node.relocate, property, property, mapTexts_relocateFields]
  | object kind className configurable configured recorded => rfl
  | list items =>
      have htexts : (Node.relocateItems path items).filterMap
          (fun i => i.primitive?.map Primitive.render) =
            items.filterMap fun i => i.primitive?.map Primitive.render := by
        rw [relocateItems_eq_map, List.filterMap_map]
        congr 1
        funext i
        rw [Function.comp_apply, Node.primitive?_relocate]
      have hobjects : (numberItems first (Node.relocateItems path items)).filterMap
          (fun i => i.1.record?.map fun r => (⟨r, i.2 + 1⟩ : Occurrence)) =
            ((numberItems first items).filterMap fun i =>
              i.1.record?.map fun r => (⟨r, i.2 + 1⟩ : Occurrence)).map
                (Occurrence.relocate path) := by
        rw [numberItems_relocateItems hplain, List.filterMap_map, List.map_filterMap]
        congr 1
        funext i
        rw [Function.comp_apply, Node.record?_relocate, Option.map_map, Option.map_map]
        rfl
      have hlength : (Node.relocateItems path items).length = items.length := by
        rw [relocateItems_eq_map, List.length_map]
      rw [Node.relocate, property, property, htexts, hobjects, hlength, List.length_map,
        references_relocate]

/-! ## Configured fields -/

/-- Fields that are not paths give the same properties. -/
theorem configure_relocateFields (path : String) {fields : Fields}
    (hplain : Node.pathsPlainFields fields = true) (c : Configuration) (first : Nat) :
    configure (order.relocate path) c (numberFields first (Node.relocateFields path fields)) =
      configure order c (numberFields first fields) := by
  induction fields generalizing c first with
  | nil => rfl
  | cons e rest ih =>
      rcases e with ⟨key, n⟩
      rw [Node.pathsPlainFields, Bool.and_eq_true] at hplain
      rw [Node.relocateFields, numberFields, numberFields, configure, configure,
        property_relocate hplain.1, (Node.stays path n hplain.1).objects]
      simp only [ih hplain.2]

/-- Fields whose paths are set make of a configuration whose path is set what the fields make of the
configuration, with the path set. -/
theorem configure_of_repathed {a b : Fields} (h : Fields.Repathed a b)
    (hpath : ∀ e ∈ b, e.1 = "path" → e.2 = .text path) {c d : Configuration} {first : Nat}
    (hc : configure order c (numberFields first a) = .ok d) :
    configure order (c.set "path" (.value path)) (numberFields first b) =
      .ok (d.set "path" (.value path)) := by
  induction h generalizing c first with
  | nil =>
      rw [numberFields, configure, Except.ok.injEq] at hc
      rw [numberFields, configure, hc]
  | same e h ih =>
      rcases e with ⟨key, n⟩
      have hrest := fun e he => hpath e (List.mem_cons_of_mem _ he)
      rw [numberFields, configure] at hc ⊢
      rw [Configuration.name_set]
      -- a field under the key of paths is set over the path, any other one beside it
      cases hvalue : property order (c.name ++ "." ++ key) n first with
      | error fault => simp [hvalue] at hc
      | ok value =>
          simp only [hvalue] at hc ⊢
          by_cases hkey : key = "path"
          · subst hkey
            have hn : n = .text path := hpath _ List.mem_cons_self rfl
            rw [hn, Node.text, property, Except.ok.injEq] at hvalue
            have hnext := ih hrest hc
            rw [c.set_set] at hnext ⊢
            rw [← hvalue]
            exact hnext
          · rw [Configuration.set_comm c hkey]
            exact ih hrest hc
  | replaced old new h ih =>
      have hrest := fun e he => hpath e (List.mem_cons_of_mem _ he)
      have hnew : Node.primitive new = .text path := hpath _ List.mem_cons_self rfl
      rw [numberFields, configure] at hc ⊢
      simp only [property] at hc
      rw [hnew, Node.text, property]
      have hnext := ih hrest hc
      rw [c.set_set] at hnext
      simp only [c.set_set]
      exact hnext
  | added new h ih =>
      have hrest := fun e he => hpath e (List.mem_cons_of_mem _ he)
      have hnew : Node.primitive new = .text path := hpath _ List.mem_cons_self rfl
      rw [numberFields, configure, hnew, Node.text, property]
      simp only [c.set_set]
      exact ih hrest hc

/-- A path that is set first is set again where the fields have one. -/
theorem configure_set_path {fields : Fields} (hkey : Keyed.hasKey "path" fields = true)
    (hpath : ∀ e ∈ fields, e.1 = "path" → e.2 = .text path) (c : Configuration) (first : Nat) :
    configure order (c.set "path" (.value path)) (numberFields first fields) =
      configure order c (numberFields first fields) := by
  induction fields generalizing c first with
  | nil => exact absurd hkey (by simp [Keyed.hasKey])
  | cons e rest ih =>
      rcases e with ⟨key, n⟩
      rw [numberFields, configure, configure, Configuration.name_set]
      by_cases hfirst : key = "path"
      · subst hfirst
        have hn : n = .text path := hpath _ List.mem_cons_self rfl
        rw [hn, Node.text, property]
        simp only [c.set_set]
      · have hmore : Keyed.hasKey "path" rest = true := by
          simpa [Keyed.hasKey, hfirst] using hkey
        split
        · rfl
        · rw [Configuration.set_comm c hfirst]
          exact ih hmore (fun e he => hpath e (List.mem_cons_of_mem _ he)) _ _

/-- Setting the path among fields sets it in the configuration that they become. -/
theorem configure_setPath {fields : Fields} (hplain : Fields.pathPlain fields = true)
    {c d : Configuration} {first : Nat}
    (hc : configure order c (numberFields first fields) = .ok d) :
    configure order c (numberFields first (Fields.setPath path fields)) =
      .ok (d.set "path" (.value path)) := by
  have hpath : ∀ e ∈ Fields.setPath path fields, e.1 = "path" → e.2 = .text path :=
    fun e he hkey => Fields.eq_of_mem_setPath he hkey
  rw [← configure_set_path (Fields.hasKey_setPath path fields) hpath]
  exact configure_of_repathed (Fields.repathed_setPath path hplain) hpath hc

/-! ## Configurations -/

/-- The configuration of a relocated object is that of the object, with its path set if it makes a
data source. -/
theorem configuration_relocate (path : String) {p : Nat} {o : Occurrence}
    (hplain : o.record.pathsPlain = true) {found : Option Configuration}
    (h : configuration order p o = .ok found) :
    configuration (order.relocate path) p (o.relocate path) =
      .ok (found.map fun c => if Catalog.standard.kindOf? c.className = some .dataSource then
        c.set "path" (.value path) else c) := by
  have hclass : (o.relocate path).record.className = o.record.className := rfl
  have hsame : (o.relocate path).record.configurable = o.record.configurable := rfl
  rw [configuration] at h ⊢
  simp only [hclass, hsame] at h ⊢
  split at h
  · simp at h
  · rename_i hnamed
    rw [if_neg hnamed]
    split at h
    · rename_i hconf
      rw [if_pos hconf]
      cases hc : configure order ⟨componentName o.record.className p, o.record.className, []⟩
        (numberFields o.first o.record.configured) with
      | error fault => simp [hc, Except.map] at h
      | ok c =>
          simp only [hc, Except.map, Except.ok.injEq] at h
          obtain ⟨hsources, hfields⟩ := Record.pathsPlain_iff.1 hplain
          rw [Record.fields, Node.pathsPlainFields_append, Bool.and_eq_true] at hfields
          rw [← configure_relocateFields path hfields.1] at hc
          have hkind : o.record.isSource = true ↔
              Catalog.standard.kindOf? c.className = some .dataSource := by
            rw [(configure_ok hc).2.1, Record.isSource, makesSource, hconf, Bool.true_and,
              beq_iff_eq]
          have hconfigured : (o.relocate path).record.configured =
              if o.record.isSource then
                Fields.setPath path (Node.relocateFields path o.record.configured)
              else Node.relocateFields path o.record.configured := rfl
          have hfirst : (o.relocate path).first = o.first := rfl
          rw [hconfigured, hfirst, ← h, Option.map_some]
          -- the path is set in the fields of a data source, and for the same class afterwards
          by_cases hsource : o.record.isSource = true
          · have hpaths : Fields.pathPlain (Node.relocateFields path o.record.configured) = true :=
              (Fields.pathPlain_relocateFields path _).trans (hsources hsource)
            rw [if_pos hsource, if_pos (hkind.1 hsource), configure_setPath hpaths hc]
            rfl
          · rw [if_neg hsource, if_neg fun hk => hsource (hkind.2 hk), hc]
            rfl
    · rename_i hconf
      rw [if_neg hconf]
      rw [Except.ok.injEq] at h
      rw [← h]
      rfl

/-- The configurations of relocated rows are the relocated configurations. -/
theorem configurations_relocate {rows : List (Nat × Occurrence)}
    (hplain : ∀ row ∈ rows, row.2.record.pathsPlain = true) {configs : List Configuration}
    (h : configurations order rows = .ok configs) :
    configurations (order.relocate path) (rows.map fun row => (row.1, row.2.relocate path)) =
      .ok (relocatedConfigs .standard path configs) := by
  induction rows generalizing configs with
  | nil =>
      rw [configurations, Except.ok.injEq] at h
      rw [← h]
      rfl
  | cons row rest ih =>
      obtain ⟨found, more, hfound, hmore, rfl⟩ := configurations_cons h
      have hfirst := configuration_relocate path (hplain row List.mem_cons_self) hfound
      have hrest := ih (fun other hother => hplain other (List.mem_cons_of_mem _ hother)) hmore
      rw [List.map_cons, configurations, hfirst]
      simp only [hrest, Except.map]
      cases found <;> rfl

end Extraction

/-- The configurations of a tree whose paths were set are those of the tree, with the paths of the
data sources set. -/
theorem Record.extract_relocate {root : Record} (hplain : root.pathsPlain = true)
    {configs : List Configuration} (h : root.extract = .ok configs) (path : String) :
    (root.relocate path).extract = .ok (relocatedConfigs .standard path configs) := by
  rw [extract] at h ⊢
  simp only [DependencyOrder.ofRecord_relocate hplain, DependencyOrder.rows_relocate]
  apply Extraction.configurations_relocate _ h
  intro row hrow
  have hmem := (DependencyOrder.nameOf?_of_mem_rows hrow).1
  exact pathsPlain_of_mem_occurrences hplain hmem

end Retrace
