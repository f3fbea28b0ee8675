import Retrace.Proofs.DatasetRecovery

/-!
# Names of components never collide

The name of a component is the last part of its class name, in lower case, with its position behind
a dash.  Class names may hold digits and dashes themselves, so one component may be called `a-1-0`
and another one `a-10`.  But the position is what follows the last dash, so names of different
positions differ whatever the classes are.  Configurations that were extracted from a tree can
therefore all be registered in a new workshop, and every one is found under the name of its object.

Main results:

- Theorem `exists_own_configuration`: the configuration of an object stands under its name.
- Theorem `names_never_collide`: a reproduction is prepared exactly where its record is extracted,
  and it has every configuration under the name of its object.
-/

namespace Retrace

open DependencyOrder

/-! ## Registered configurations -/

/-- A row of a tree's order has a configuration of its own, if its object is configurable. -/
theorem Record.exists_own_configuration {root : Record} {configs : List Configuration}
    (h : root.extract = .ok configs) {row : Nat × Occurrence} (hrow : row ∈ (ofRecord root).rows)
    (hconf : row.2.record.configurable = true) :
    ∃ c ∈ configs, Extraction.configuration (ofRecord root) row.1 row.2 = .ok (some c) ∧
      c.name = rowName row := by
  obtain ⟨found, hfound, hmem⟩ := Extraction.configuration_of_mem h hrow
  obtain ⟨c, rfl, hname, -⟩ := Extraction.configuration_ok hfound hconf
  exact ⟨c, hmem c rfl, hfound, hname⟩

/-- What was extracted from a tree can be registered in a new workshop. -/
theorem Workshop.run_add_extract {root : Record} {configs : List Configuration}
    (h : root.extract = .ok configs) (catalog : Catalog) :
    (add configs).run (ofCatalog catalog) = (.ok (), holding catalog configs) :=
  run_add (Record.nodup_configurationNames h)

namespace Reproduction

/-- A reproduction is prepared with the configurations of its record, or fails as their extraction
does. -/
theorem ofRecord_eq (m : ModelRecord) (catalog : Catalog) :
    ofRecord m catalog =
      (m.record.extract.mapError .extraction).map (prepared catalog m none) := by
  cases hextract : m.record.extract with
  | error fault =>
      rw [ofRecord, hextract]
      rfl
  | ok configs => exact ofRecord_of_extract hextract catalog

/-- Names never collide.  Names with different positions differ, whatever the classes are.  In every
tree each object has one position, and no two of the positions give one name, so the configurations
that are extracted can all be registered.  A reproduction is prepared exactly if its record can be
extracted, and fails as the extraction does otherwise; it then has the configuration of every
configurable object under the name of the object. -/
theorem names_never_collide :
    (∀ (a b : String) (p q : Nat), p ≠ q → componentName a p ≠ componentName b q) ∧
    (∀ root : Record,
      (DependencyOrder.ofRecord root).rows.map Prod.fst =
        List.range (DependencyOrder.ofRecord root).size ∧
      ((DependencyOrder.ofRecord root).rows.map Prod.snd).Perm root.occurrences ∧
      ((DependencyOrder.ofRecord root).rows.map rowName).Nodup ∧
      ∀ configs, root.extract = .ok configs → ∀ catalog : Catalog,
        (Workshop.add configs).run (.ofCatalog catalog) = (.ok (), .holding catalog configs)) ∧
    ∀ (m : ModelRecord) (catalog : Catalog),
      ((∃ r, ofRecord m catalog = .ok r) ↔ ∃ configs, m.record.extract = .ok configs) ∧
      (∀ e, ofRecord m catalog = .error e ↔
        ∃ fault, m.record.extract = .error fault ∧ e = .extraction fault) ∧
      ∀ r, ofRecord m catalog = .ok r →
        ∀ row ∈ (DependencyOrder.ofRecord m.record).rows, row.2.record.configurable = true →
          ∃ c, Extraction.configuration (.ofRecord m.record) row.1 row.2 = .ok (some c) ∧
            r.workshop.configuration? (rowName row) = some c := by
  refine ⟨fun a b p q hne heq => hne (componentName_injective heq), fun root => ?_,
    fun m catalog => ⟨?_, fun e => ?_, ?_⟩⟩
  · exact ⟨map_fst_rows root, rows_perm_occurrences root, nodup_rowNames root,
      fun configs h catalog => Workshop.run_add_extract h catalog⟩
  · rw [ofRecord_eq]
    cases m.record.extract <;> simp [Except.mapError, Except.map]
  · rw [ofRecord_eq]
    cases m.record.extract <;> simp [Except.mapError, Except.map, eq_comm]
  · intro r hr row hrow hconf
    obtain ⟨configs, hextract, rfl⟩ := eq_of_ofRecord hr
    obtain ⟨c, hc, hown, hname⟩ := Record.exists_own_configuration hextract hrow hconf
    refine ⟨c, hown, ?_⟩
    rw [← hname]
    exact Workshop.configuration?_of_mem (Record.nodup_configurationNames hextract) hc

/-- Eleven kernels whose classes hold dashes and digits or differ in case and in their qualifiers
alone. -/
def dashed : Record :=
  .observed .model "Model"
    (("k", .object .component "A-1" true [] []) ::
      (List.replicate 9 ("k", .object .component "b.a" true [] []) ++
        [("k", .object .component "c::A" true [] [])]))

/-- The first kernel is called `a-1-0`, the second one `a-1` and the last one `a-10`; each of them
has its own configuration. -/
theorem names_never_collide_dashed :
    (∃ configs, dashed.extract = .ok configs) ∧
    (DependencyOrder.ofRecord dashed).rows.map rowName =
      ["a-1-0", "a-1", "a-2", "a-3", "a-4", "a-5", "a-6", "a-7", "a-8", "a-9", "a-10"] ∧
    ∃ r, ofRecord ⟨dashed⟩ .standard = .ok r ∧
      r.workshop.configuration? "a-1-0" = some ⟨"a-1-0", "A-1", []⟩ ∧
      r.workshop.configuration? "a-1" = some ⟨"a-1", "b.a", []⟩ ∧
      r.workshop.configuration? "a-10" = some ⟨"a-10", "c::A", []⟩ := by
  have hnames : (DependencyOrder.ofRecord dashed).rows.map rowName =
      ["a-1-0", "a-1", "a-2", "a-3", "a-4", "a-5", "a-6", "a-7", "a-8", "a-9", "a-10"] := by
    decide +kernel
  have hextract : ∃ configs, dashed.extract = .ok configs := by
    cases h : dashed.extract with
    | ok configs => exact ⟨configs, rfl⟩
    | error fault =>
        have hok : dashed.extract.isOk = true := by decide +kernel
        rw [h] at hok
        exact Bool.noConfusion hok
  obtain ⟨hprepared, -, hown⟩ := names_never_collide.2.2 ⟨dashed⟩ .standard
  obtain ⟨r, hr⟩ := hprepared.2 hextract
  have hfound : ∀ c : Configuration,
      (c.name, true, .ok (some c)) ∈ (DependencyOrder.ofRecord dashed).rows.map (fun row =>
        (rowName row, row.2.record.configurable,
          Extraction.configuration (.ofRecord dashed) row.1 row.2)) →
        r.workshop.configuration? c.name = some c := by
    intro c hc
    obtain ⟨row, hrow, heq⟩ := List.mem_map.1 hc
    simp only [Prod.mk.injEq] at heq
    obtain ⟨d, hd, hlookup⟩ := hown r hr row hrow heq.2.1
    rw [heq.2.2, Except.ok.injEq, Option.some.injEq] at hd
    rw [← heq.1, hd]
    exact hlookup
  exact ⟨hextract, hnames, r, hr, hfound ⟨"a-1-0", "A-1", []⟩ (by decide +kernel),
    hfound ⟨"a-1", "b.a", []⟩ (by decide +kernel), hfound ⟨"a-10", "c::A", []⟩ (by decide +kernel)⟩

end Reproduction
end Retrace
