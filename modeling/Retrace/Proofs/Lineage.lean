import Retrace.Proofs.Occurrences
import Retrace.Proofs.StoredEntries
import Retrace.Proofs.WholeNumbers
import Retrace.Reproduction

/-!
# Lineages lead back along plans

The record of a dataset that was loaded by a plan is walked twice: down through the datasets to the
source that they are built over, and from there through the splits to a source that is none.  Both
walks arrive at the records of what the plan loads.  What they pass, done again on any source, is
what the plan makes of that source.

Main results:

- Theorem `lineage_of_load`: the datasets around a source, made anew, are the filters of the plan.
- Theorem `splitChain_of_load`: the splits of a leaf, made again, are the splits of the plan.
-/

namespace Retrace

/-! ## Inner objects -/

namespace Occurrence

/-- The objects of the value under a key are among those of the fields. -/
theorem mem_of_locate {key : String} {first : Nat} {fields : Fields} {n : Node} {start : Nat}
    (h : locate key first fields = some (n, start)) :
    ∀ o ∈ n.occurrences start, o ∈ Node.occurrencesFields first fields := by
  induction fields generalizing first with
  | nil => simp [locate] at h
  | cons e rest ih =>
      rcases e with ⟨k, m⟩
      intro o ho
      rw [locate] at h
      split at h
      · simp only [Option.some.injEq, Prod.mk.injEq] at h
        rcases h with ⟨rfl, rfl⟩
        exact List.mem_append_left _ ho
      · exact List.mem_append_right _ (ih h o ho)

/-- An inner object lies inside the object. -/
theorem mem_of_inner? {o i : Occurrence} {key : String} (h : o.inner? key = some i) :
    i ∈ Node.occurrencesFields o.first o.record.fields := by
  simp only [inner?, Option.bind_eq_some_iff, Option.map_eq_some_iff] at h
  rcases h with ⟨⟨n, start⟩, hfound, r, hr, rfl⟩
  apply mem_of_locate hfound
  cases n with
  | object kind className configurable configured recorded =>
      simp only [Node.record?, Option.some.injEq] at hr
      subst hr
      exact List.mem_cons_self
  | _ => simp [Node.record?] at hr

/-- The record that the first field holds is the inner object under its key. -/
theorem inner?_of_head {o : Occurrence} {key : String} {r : Record} {rest : Fields}
    (h : o.record.fields = (key, r.node) :: rest) : o.inner? key = some ⟨r, o.first + 1⟩ := by
  rw [inner?, h, locate, if_pos rfl]
  rfl

/-- What lies inside an inner object lies inside the object. -/
theorem inside_of_inside {o i j : Occurrence}
    (hi : i ∈ Node.occurrencesFields o.first o.record.fields)
    (hj : j ∈ Node.occurrencesFields i.first i.record.fields) :
    j ∈ Node.occurrencesFields o.first o.record.fields :=
  Node.inside_occurrencesFields _ _ i hi j hj

end Occurrence

/-! ## Through the datasets -/

/-- The record of a filtered dataset filters by the same threshold again. -/
theorem Dataset.replay_of_record {d : Dataset} {names : List String}
    {samples : List (Sample Float)} {source : Record} {threshold : UInt64}
    (hlt : threshold.toNat < 2 ^ 63) :
    d.replay (observe "MinimumCardinalityDataset" names samples source
      [("min-cardinality", .long threshold.toInt64)]).record = d.atLeast threshold := by
  have hlong : (observe "MinimumCardinalityDataset" names samples source
      [("min-cardinality", .long threshold.toInt64)]).record.long? "min-cardinality" =
        some threshold.toInt64 := rfl
  have hnonneg : 0 ≤ threshold.toInt64 := by
    rw [Int64.le_iff_toInt_le, Decimal.toInt_toInt64 hlt]
    exact Int.natCast_nonneg _
  rw [replay, hlong, Option.filter_some, if_pos (by simpa using hnonneg)]
  simp

/-- Layers that are made anew in two parts. -/
theorem Reproduction.rewrapAll_append (catalog : Catalog) (d : Dataset)
    (inner outer : List Occurrence) :
    rewrapAll catalog d (inner ++ outer) =
      rewrapAll catalog d inner >>= fun e => rewrapAll catalog e outer := by
  induction inner generalizing d with
  | nil => rfl
  | cons o rest ih =>
      rw [List.cons_append, rewrapAll, rewrapAll]
      cases catalog.rewrap o.record d with
      | error e => rfl
      | ok next => exact ih next

/-- A dataset over a source is its own wrapper. -/
theorem Occurrence.lineage_of_source {o source : Occurrence} (hkind : o.record.kind = .dataset)
    (hinner : o.inner? "source-provenance" = some source)
    (hsource : source.record.kind = .dataSource ∨ source.record.kind = .splitDataSource) :
    o.lineage = .ok ⟨source, o, []⟩ := by
  rw [lineage, if_pos hkind]
  split
  · rename_i hnone
    simp [hnone] at hinner
  · rename_i found hfound
    obtain rfl := Option.some.inj (hfound.symm.trans hinner)
    rcases hsource with hsource | hsource <;> simp [hsource]

/-- A dataset over another one is a layer around the lineage of that. -/
theorem Occurrence.lineage_of_dataset {o source : Occurrence} (hkind : o.record.kind = .dataset)
    (hinner : o.inner? "source-provenance" = some source) (hsource : source.record.kind = .dataset)
    {l : Lineage} (h : source.lineage = .ok l) :
    o.lineage = .ok { l with outer := o :: l.outer } := by
  rw [lineage, if_pos hkind]
  split
  · rename_i hnone
    simp [hnone] at hinner
  · rename_i found hfound
    obtain rfl := Option.some.inj (hfound.symm.trans hinner)
    simp [hsource, h, Except.map]

/-- The record of a dataset leads through the datasets around its source, and these datasets made
anew, the first one first, do what the plan does. -/
theorem Occurrence.lineage_of_load {directory : Directory} {plan : DatasetPlan} {d : Dataset}
    (h : plan.load directory = .ok d) {o : Occurrence} (ho : o.record = d.record) :
    ∃ l source base, o.lineage = .ok l ∧
      l.leaf ∈ Node.occurrencesFields o.first o.record.fields ∧
      l.wrapper.record.className = "MutableDataset" ∧
      plan.source.load directory = .ok source ∧ l.leaf.record = source.record ∧
      Dataset.ofSource source = .ok base ∧
      ((∀ threshold ∈ plan.thresholds, threshold.toNat < 2 ^ 63) → ∀ other,
        Reproduction.rewrapAll .standard other l.outer.reverse = plan.layered other) := by
  induction plan generalizing d o with
  | whole plan =>
      rcases DatasetPlan.load_whole h with ⟨source, hsource, hbase⟩
      have hd := Dataset.eq_of_ofSource hbase
      have hinner : o.inner? "source-provenance" = some ⟨source.record, o.first + 1⟩ := by
        apply inner?_of_head
        rw [ho, hd]
        rfl
      exact ⟨_, source, d, lineage_of_source (by rw [ho, hd]; rfl) hinner
        (SourcePlan.kind_of_load hsource), mem_of_inner? hinner, by rw [ho, hd]; rfl, hsource,
        rfl, hbase, fun _ _ => rfl⟩
  | atLeast threshold inner ih =>
      rcases DatasetPlan.load_atLeast h with ⟨e, hload, hd⟩
      have hrecord := congrArg Dataset.record (Dataset.eq_of_atLeast hd)
      have hinner : o.inner? "source-provenance" = some ⟨e.record, o.first + 1⟩ := by
        apply inner?_of_head
        rw [ho, hrecord]
        rfl
      obtain ⟨l, source, base, hl, hmem, hwrapper, hsource, hleaf, hbase, hlayers⟩ :=
        @ih e hload ⟨e.record, o.first + 1⟩ rfl
      refine ⟨_, source, base, lineage_of_dataset (by rw [ho, hrecord]; rfl) hinner
        (DatasetPlan.kind_of_load hload) hl, inside_of_inside (mem_of_inner? hinner) hmem, hwrapper,
        hsource, hleaf, hbase, fun hthresholds other => ?_⟩
      -- the outermost filter is the last one to be made anew
      rw [DatasetPlan.thresholds, List.forall_mem_cons] at hthresholds
      rw [List.reverse_cons, Reproduction.rewrapAll_append, hlayers hthresholds.2,
        DatasetPlan.layered]
      refine bind_congr fun found => ?_
      have hreplay : Catalog.standard.rewrap o.record found = found.replay o.record := by
        rw [Catalog.rewrap, ho, hrecord]
        rfl
      rw [Reproduction.rewrapAll, hreplay, ho, hrecord, Dataset.replay_of_record hthresholds.1]
      cases found.atLeast threshold <;> rfl

/-! ## Through the splits -/

/-- The record of a side tells how it was split. -/
theorem Record.splitStep_of_split (source : Record) (proportion : Float) (seed : UInt64)
    (part : DataSource.Part) :
    Record.splitStep (.observed .splitDataSource "TrainTestSplitter"
      [("source", source.node), ("seed", .long seed.toInt64),
        ("train-proportion", .double proportion), ("is-train", .boolean (part = .train))]) =
      .ok ⟨proportion, seed, part⟩ := by
  cases part <;> simp [splitStep, record?, long?, double?, boolean?, primitive?, field?, fields,
    observed, Keyed.lookup, Node.record?, Node.primitive?, Node.long, Node.double, Node.boolean,
    node]

/-- A side of a source was split from it. -/
theorem Occurrence.splitSource_of_source {o source : Occurrence}
    (hinner : o.inner? "source" = some source) (hkind : source.record.kind ≠ .dataset) :
    ∃ found, o.splitSource = .ok found ∧ found.val = source := by
  rw [splitSource]
  split
  · rename_i hnone
    simp [hnone] at hinner
  · rename_i found hfound
    obtain rfl := Option.some.inj (hfound.symm.trans hinner)
    rw [if_neg hkind]
    exact ⟨_, rfl, rfl⟩

/-- The record of a source leads through its splits to the record of the leaf, and splitting again
does what the plan does. -/
theorem Occurrence.splitChain_of_load {directory : Directory} {plan : SourcePlan}
    {source : DataSource} (h : plan.load directory = .ok source) {o : Occurrence}
    (ho : o.record = source.record) :
    ∃ leaf found steps, o.splitChain = .ok (leaf, steps) ∧
      (leaf = o ∨ leaf ∈ Node.occurrencesFields o.first o.record.fields) ∧
      plan.leaf.load directory = .ok found ∧ leaf.record = found.record ∧
      ∀ other : DataSource,
        (other.replaySplits steps).toOption = (plan.rebuiltOn other).toOption := by
  induction plan generalizing source o with
  | file format path =>
      have hkind : o.record.kind = .dataSource := by
        rw [ho, DataSource.record_of_ofFile h]
        rfl
      exact ⟨o, source, [], by rw [splitChain, hkind], .inl rfl, h, ho, fun _ => rfl⟩
  | memory names samples description =>
      have hkind : o.record.kind = .dataSource := by
        rw [ho, ← Except.ok.inj h]
        rfl
      exact ⟨o, source, [], by rw [splitChain, hkind], .inl rfl, h, ho, fun _ => rfl⟩
  | split inner proportion seed part ih =>
      rcases SourcePlan.load_split h with ⟨inside, hload, hsplit⟩
      have hrecord := DataSource.record_of_split hsplit
      have hinner : o.inner? "source" = some ⟨inside.record, o.first + 1⟩ := by
        apply inner?_of_head
        rw [ho, hrecord]
        rfl
      have hkind : inside.record.kind ≠ .dataset := by
        rcases SourcePlan.kind_of_load hload with hkind | hkind <;> simp [hkind]
      rcases splitSource_of_source hinner hkind with ⟨⟨_, hlt⟩, hsource, rfl⟩
      obtain ⟨leaf, found, steps, hchain, hmem, hleaf, hrec, hreplay⟩ :=
        @ih inside hload ⟨inside.record, o.first + 1⟩ rfl
      -- the outermost split is met first and replayed last
      refine ⟨leaf, found, ⟨proportion, seed, part⟩ :: steps, ?_, .inr ?_, hleaf, hrec,
        fun other => ?_⟩
      · have hstep : o.record.splitStep = .ok ⟨proportion, seed, part⟩ := by
          rw [ho, hrecord]
          exact Record.splitStep_of_split _ _ _ _
        have hokind : o.record.kind = .splitDataSource := by
          rw [ho, hrecord]
          rfl
        rw [splitChain, hokind]
        simp only [hstep, hsource, hchain, Except.map]
      · rcases hmem with rfl | hmem
        · exact mem_of_inner? hinner
        · exact inside_of_inside (mem_of_inner? hinner) hmem
      · rw [SourcePlan.rebuiltOn, toOption_bind, ← hreplay, DataSource.replaySplits]
        cases other.replaySplits steps with
        | error e => rfl
        | ok split => exact toOption_mapError _ _

end Retrace
