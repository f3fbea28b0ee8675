import Retrace.Proofs.DatasetRecovery

/-!
# Routes to the source of a dataset

The recovery of a dataset first reads a route from the record: through the datasets to the source
that they are built over, and through the splits to a data source.  The route does not depend on
what was made, and all objects on it lie in the tree.  Then it makes the data source anew, and what
is built on it along the route is determined.

Main results:

- Theorem `mem_of_route`: a route ends at a data source of the tree.
- Theorem `run_recoverDataset_eq`: the recovery of a dataset goes along the route of its record.
-/

namespace Retrace

namespace Occurrence

variable {o : Occurrence}

/-! ## Through the datasets -/

/-- One step of a lineage. -/
theorem lineage_eq (o : Occurrence) :
    o.lineage =
      if o.record.kind = .dataset then
        match o.inner? "source-provenance" with
        | none => .error (.recovery (.noSource o.record.className))
        | some source =>
            match source.record.kind with
            | .dataset => source.lineage.map fun l => { l with outer := o :: l.outer }
            | .dataSource => .ok ⟨source, o, []⟩
            | .splitDataSource => .ok ⟨source, o, []⟩
            | kind => .error (.recovery (.backedBy o.record.className kind source.record.className))
      else .error (.recovery (.notDataset o.record.kind o.record.className)) := by
  rw [lineage]
  split
  · cases o.inner? "source-provenance" with
    | none => rfl
    | some source => cases source.record.kind <;> rfl
  · rfl

/-- The objects on a way through the datasets are the first one or lie inside it. -/
theorem inside_of_lineage (o : Occurrence) : ∀ l, o.lineage = .ok l →
    l.leaf ∈ Node.occurrencesFields o.first o.record.fields ∧
      ∀ layer ∈ l.outer, layer = o ∨ layer ∈ Node.occurrencesFields o.first o.record.fields := by
  fun_induction Occurrence.lineage o with
  | case1 => simp
  | case2 o hkind source hinner hsource ih =>
      intro l h
      cases hl : source.lineage with
      | error e => simp [hl, Except.map] at h
      | ok inner =>
          simp only [hl, Except.map, Except.ok.injEq] at h
          subst h
          obtain ⟨hleaf, houter⟩ := ih inner hl
          have hmem := mem_of_inner? hinner
          refine ⟨inside_of_inside hmem hleaf, fun layer hlayer => ?_⟩
          rcases List.mem_cons.1 hlayer with rfl | hlayer
          · exact .inl rfl
          · rcases houter layer hlayer with rfl | hinside
            · exact .inr hmem
            · exact .inr (inside_of_inside hmem hinside)
  | case3 o hkind source hinner hsource =>
      intro l h
      simp only [Except.ok.injEq] at h
      subst h
      exact ⟨mem_of_inner? hinner, by simp⟩
  | case4 o hkind source hinner hsource =>
      intro l h
      simp only [Except.ok.injEq] at h
      subst h
      exact ⟨mem_of_inner? hinner, by simp⟩
  | case5 => simp
  | case6 => simp

/-! ## Through the splits -/

/-- One step of the way through the splits, without what it takes to end. -/
theorem map_splitSource (o : Occurrence) :
    o.splitSource.map Subtype.val =
      match o.inner? "source" with
      | none => .error (.recovery (.splitField o.record.className "source"))
      | some inner =>
          if inner.record.kind = .dataset then inner.lineage.map Lineage.leaf else .ok inner := by
  rw [splitSource]
  split
  · rename_i hinner
    conv_rhs => rw [hinner]
    rfl
  · rename_i inner hinner
    conv_rhs => rw [hinner]
    simp only
    split
    · split
      · rename_i e hl
        conv_rhs => rw [hl]
        rfl
      · rename_i l hl
        conv_rhs => rw [hl]
        rfl
    · rfl

/-- The source that a side was split from lies inside the side. -/
theorem inside_of_splitSource {i : Occurrence} (h : o.splitSource.map Subtype.val = .ok i) :
    i ∈ Node.occurrencesFields o.first o.record.fields := by
  rw [map_splitSource] at h
  split at h
  · simp at h
  · rename_i inner hinner
    have hmem := mem_of_inner? hinner
    split at h
    · cases hl : inner.lineage with
      | error e => simp [hl, Except.map] at h
      | ok l =>
          simp only [hl, Except.map, Except.ok.injEq] at h
          rw [← h]
          exact inside_of_inside hmem (inside_of_lineage inner l hl).1
    · rw [← Except.ok.inj h]
      exact hmem

/-- One step of the way through the splits. -/
theorem splitChain_eq (o : Occurrence) :
    o.splitChain =
      match o.record.kind with
      | .splitDataSource =>
          match o.record.splitStep with
          | .error e => .error e
          | .ok step =>
              match o.splitSource.map Subtype.val with
              | .error e => .error e
              | .ok inner => inner.splitChain.map fun found => (found.1, step :: found.2)
      | .dataSource => .ok (o, [])
      | kind => .error (.recovery (.notSource kind o.record.className)) := by
  rw [splitChain]
  cases o.record.kind <;> try rfl
  cases o.record.splitStep with
  | error e => rfl
  | ok step =>
      cases o.splitSource with
      | error e => rfl
      | ok inner => rfl

/-- The source at the end of a way through the splits is a data source, and it is the first object
or lies inside it. -/
theorem inside_of_splitChain (o : Occurrence) : ∀ found, o.splitChain = .ok found →
    found.1.record.kind = .dataSource ∧
      (found.1 = o ∨ found.1 ∈ Node.occurrencesFields o.first o.record.fields) := by
  fun_induction Occurrence.splitChain o with
  | case1 => simp
  | case2 => simp
  | case3 o hkind step hstep inner hlt hsource ih =>
      intro found h
      have hinner : o.splitSource.map Subtype.val = .ok inner := by
        rw [hsource]
        rfl
      have hmem := inside_of_splitSource hinner
      cases hchain : inner.splitChain with
      | error e => simp [hchain, Except.map] at h
      | ok rest =>
          simp only [hchain, Except.map, Except.ok.injEq] at h
          rw [← h]
          obtain ⟨hdata, hplace⟩ := ih rest hchain
          refine ⟨hdata, .inr ?_⟩
          rcases hplace with hsame | hinside
          · rw [hsame]
            exact hmem
          · exact inside_of_inside hmem hinside
  | case4 o hkind =>
      intro found h
      rw [← Except.ok.inj h]
      exact ⟨hkind, .inl rfl⟩
  | case5 => simp

end Occurrence

/-! ## Whole routes -/

/-- The way from the record of a model to the data source of its samples. -/
structure Route where
  lineage : Lineage
  /-- the data source -/
  leaf : Occurrence
  /-- the splits, the outermost first -/
  splits : List SplitStep

/-- The route of a record. -/
def ModelRecord.route (m : ModelRecord) : Result Route := do
  let recorded ← m.dataset.mapError fun fault => .recoveryCause (.extraction fault)
  let lineage ← recorded.lineage
  let chain ← lineage.leaf.splitChain
  return ⟨lineage, chain.1, chain.2⟩

/-- A route ends at a data source of the tree. -/
theorem ModelRecord.mem_of_route {m : ModelRecord} {route : Route} (h : m.route = .ok route) :
    route.leaf ∈ m.record.occurrences ∧ route.leaf.record.kind = .dataSource := by
  rw [ModelRecord.route] at h
  cases hdataset : m.dataset with
  | error fault => simp [hdataset, Except.mapError, bind, Except.bind] at h
  | ok recorded =>
      cases hlineage : recorded.lineage with
      | error e => simp [hdataset, hlineage, Except.mapError, bind, Except.bind] at h
      | ok lineage =>
          cases hchain : lineage.leaf.splitChain with
          | error e => simp [hdataset, hlineage, hchain, Except.mapError, bind, Except.bind] at h
          | ok chain =>
              simp only [hdataset, hlineage, hchain, Except.mapError, bind, Except.bind, pure,
                Except.pure, Except.ok.injEq] at h
              obtain ⟨hkind, hplace⟩ := Occurrence.inside_of_splitChain _ _ hchain
              have hroot := Reproduction.mem_of_dataset hdataset
              have hend := Record.mem_occurrences_of_inside hroot
                (Occurrence.inside_of_lineage recorded lineage hlineage).1
              rw [← h]
              refine ⟨?_, hkind⟩
              rcases hplace with hsame | hinside
              · rw [hsame]
                exact hend
              · exact Record.mem_occurrences_of_inside hend hinside

namespace Reproduction

variable {directory : Directory}

/-- Build the dataset of a route on its data source. -/
def rebuild (catalog : Catalog) (route : Route) (source : DataSource) : Result Dataset := do
  let replayed ← source.replaySplits route.splits
  let wrapped ← catalog.wrap route.lineage.wrapper.record.className replayed
  rewrapAll catalog wrapped route.lineage.outer.reverse

/-- Make the data source of a route anew and build the dataset on it. -/
def recoverAlong (directory : Directory) (order : DependencyOrder) (catalog : Catalog)
    (route : Route) : Step Dataset := do
  let source ← recoverLeaf directory order route.leaf
  let d ← ofResult (rebuild catalog route source)
  reach .datasetRecovered
  return d

/-- Building the dataset of a route step by step ends as building it at once. -/
theorem run_rebuild (catalog : Catalog) (route : Route) (source : DataSource) (r : Reproduction) :
    (do
      let source ← ofResult (source.replaySplits route.splits)
      let wrapped ← ofResult (catalog.wrap route.lineage.wrapper.record.className source)
      let d ← ofResult (rewrapAll catalog wrapped route.lineage.outer.reverse)
      reach .datasetRecovered
      return d : Step Dataset).run r =
    (do
      let d ← ofResult (rebuild catalog route source)
      reach .datasetRecovered
      return d : Step Dataset).run r := by
  rw [rebuild]
  cases source.replaySplits route.splits with
  | error e => rfl
  | ok replayed =>
      rw [run_bind_ok (run_ofResult_ok _ _)]
      simp only [bind, Except.bind]
      cases hwrap : catalog.wrap route.lineage.wrapper.record.className replayed with
      | error e => rfl
      | ok wrapped => rfl

/-- The recovery of a dataset goes along the route of its record. -/
theorem run_recoverDataset_eq (r : Reproduction) :
    (recoverDataset directory).run r =
      match r.record.route with
      | .error e => (.error e, r)
      | .ok route => (recoverAlong directory (.ofRecord r.record.record) r.workshop.catalog
          route).run r := by
  rw [recoverDataset, run_get_bind]
  -- nothing is made before the whole route is known
  cases hdataset : r.record.dataset with
  | error fault =>
      have hroute : r.record.route = .error (.recoveryCause (.extraction fault)) := by
        simp only [ModelRecord.route, hdataset, Except.mapError, bind, Except.bind]
      rw [hroute]
      exact run_bind_error rfl
  | ok recorded =>
      simp only [Except.mapError]
      rw [run_bind_ok (run_ofResult_ok _ _)]
      cases hlineage : recorded.lineage with
      | error e =>
          have hroute : r.record.route = .error e := by
            simp only [ModelRecord.route, hdataset, hlineage, Except.mapError, bind, Except.bind]
          rw [hroute]
          exact run_bind_error rfl
      | ok lineage =>
          rw [run_bind_ok (run_ofResult_ok _ _)]
          cases hchain : lineage.leaf.splitChain with
          | error e =>
              have hroute : r.record.route = .error e := by
                simp only [ModelRecord.route, hdataset, hlineage, hchain, Except.mapError, bind,
                  Except.bind]
              rw [hroute]
              exact run_bind_error rfl
          | ok chain =>
              have hroute : r.record.route = .ok ⟨lineage, chain.1, chain.2⟩ := by
                simp only [ModelRecord.route, hdataset, hlineage, hchain, Except.mapError, bind,
                  Except.bind, pure, Except.pure]
              rw [run_bind_ok (run_ofResult_ok _ _), hroute]
              simp only
              rw [recoverAlong]
              rcases hleaf : (recoverLeaf directory (.ofRecord r.record.record) chain.1).run r with
                ⟨found, s⟩
              cases found with
              | error e => rw [run_bind_error hleaf, run_bind_error hleaf]
              | ok source =>
                  rw [run_bind_ok hleaf, run_bind_ok hleaf]
                  exact run_rebuild r.workshop.catalog ⟨lineage, chain.1, chain.2⟩ source s

/-- What is recovered along a route is built on the data source that is recovered. -/
theorem fst_run_recoverAlong (order : DependencyOrder) (catalog : Catalog) (route : Route)
    (r : Reproduction) :
    ((recoverAlong directory order catalog route).run r).1 =
      match ((recoverLeaf directory order route.leaf).run r).1 with
      | .error e => .error e
      | .ok source => rebuild catalog route source := by
  rw [recoverAlong]
  rcases hleaf : (recoverLeaf directory order route.leaf).run r with ⟨found, s⟩
  cases found with
  | error e => rw [run_bind_error hleaf]
  | ok source =>
      rw [run_bind_ok hleaf]
      simp only
      cases hbuilt : rebuild catalog route source with
      | error e => rfl
      | ok d => rfl

end Reproduction
end Retrace
