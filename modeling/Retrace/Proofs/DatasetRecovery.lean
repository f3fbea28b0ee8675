import Retrace.Proofs.TrainedRecord
import Retrace.Proofs.Workshop

/-!
# Recovery of datasets

A reproduction that has just been prepared has all file sources of the record registered and makes
nothing.  What was recorded in memory cannot be made anew.  From there the recorded dataset is
recovered over a file, but from the path that was recorded: where the path of the file is no text
that is another path, and the recovery finds another file or none.

Main results:

- Theorem `stocked_of_ofRecord`: a prepared reproduction has the file sources of its record.
- Theorem `run_recoverDataset_asRecorded`: what is recovered is loaded from the recorded path.
- Theorem `recoverDataset_of_load`: over a file at a path that is a text the dataset is recovered.
- Theorem `recoverDataset_not_of_load`: at another path it need not be.
-/

namespace Retrace
namespace Reproduction

/-! ## Steps -/

/-- Work that ends well in the workshop ends well in the reproduction. -/
theorem run_inWorkshop_ok {β : Type} {work : Work β} {r : Reproduction} {b : β} {w : Workshop}
    (h : work.run r.workshop = (.ok b, w)) :
    (inWorkshop work).run r = (.ok b, { r with workshop := w }) := by
  rw [inWorkshop, run_get_bind, h]
  rfl

/-- Work that fails in the workshop fails in the reproduction. -/
theorem run_inWorkshop_error {β : Type} {work : Work β} {r : Reproduction} {e : Error}
    {w : Workshop} (h : work.run r.workshop = (.error e, w)) :
    (inWorkshop work).run r = (.error e, { r with workshop := w }) := by
  rw [inWorkshop, run_get_bind, h]
  rfl

theorem run_ofResult_ok {β : Type} (b : β) (r : Reproduction) :
    (ofResult (.ok b)).run r = (.ok b, r) := rfl

/-! ## File sources -/

/-- The record of a file source. -/
def fileRecord (format : DataFormat) (path : String) (recorded : Fields) : Record :=
  .rebuildable .dataSource (DataSource.fileClass format) [("path", .text path)] recorded

/-- The configuration of a file source names its format and its path. -/
theorem configures_fileRecord {order : DependencyOrder} {c : Configuration} {o : Occurrence}
    (h : Extraction.Configures order c o) {format : DataFormat} {path : String} {recorded : Fields}
    (ho : o.record = fileRecord format path recorded) :
    c.className = DataSource.fileClass format ∧ c.property? "path" = some (.value path) := by
  have hpath : Keyed.lookupLast "path" o.record.configured = some (.primitive (.text path)) := by
    rw [ho]
    rfl
  refine ⟨?_, h.property?_primitive hpath⟩
  rw [h.className, ho]
  rfl

/-- Whether the file sources of the record are registered and not yet made, and nothing is being
made. -/
structure Stocked (r : Reproduction) : Prop where
  catalog : r.workshop.catalog = .standard
  idle : r.workshop.making = []
  registered : ∀ leaf ∈ r.record.record.occurrences, ∀ format path recorded,
    leaf.record = fileRecord format path recorded →
      ∀ name, (DependencyOrder.ofRecord r.record.record).nameOf? leaf = some name →
        Keyed.lookup name r.workshop.instances = none ∧
        ∃ c, r.workshop.configuration? name = some c ∧
          c.className = DataSource.fileClass format ∧ c.property? "path" = some (.value path)

/-- The reproduction that is prepared for a record with configurations. -/
def prepared (catalog : Catalog) (m : ModelRecord) (reference : Option Model)
    (configs : List Configuration) : Reproduction :=
  ⟨m, reference, .holding catalog configs, .configLoaded⟩

/-- A reproduction is prepared with the configurations of its record. -/
theorem eq_of_ofRecord {m : ModelRecord} {catalog : Catalog} {r : Reproduction}
    (h : ofRecord m catalog = .ok r) :
    ∃ configs, m.record.extract = .ok configs ∧ r = prepared catalog m none configs := by
  rw [ofRecord] at h
  cases hextract : m.record.extract with
  | error fault => simp [hextract] at h
  | ok configs =>
      simp only [hextract] at h
      cases hadd : (Workshop.add configs).run (Workshop.ofCatalog catalog) with
      | mk found w =>
          cases found with
          | error e => simp [hadd] at h
          | ok u =>
              simp only [hadd, Except.ok.injEq] at h
              rw [Workshop.run_add_ok hadd] at h
              exact ⟨configs, rfl, h.symm⟩

/-- A record that can be extracted can be prepared. -/
theorem ofRecord_of_extract {m : ModelRecord} {configs : List Configuration}
    (h : m.record.extract = .ok configs) (catalog : Catalog) :
    ofRecord m catalog = .ok (prepared catalog m none configs) := by
  have hadd := @Workshop.run_add configs (Workshop.ofCatalog catalog)
    (Record.nodup_configurationNames h)
  rw [ofRecord, h]
  simp only [hadd]
  rfl

/-- A prepared reproduction has the file sources of its record. -/
theorem stocked_of_ofRecord {m : ModelRecord} {r : Reproduction}
    (h : ofRecord m .standard = .ok r) : r.Stocked := by
  rcases eq_of_ofRecord h with ⟨configs, hextract, rfl⟩
  refine ⟨rfl, rfl, ?_⟩
  intro leaf hleaf format path recorded hrecord name hname
  obtain ⟨c, hc, rfl, hholds⟩ := Record.exists_configuration hextract hleaf (by rw [hrecord]; rfl)
    hname
  exact ⟨rfl, c, Workshop.configuration?_of_mem (Record.nodup_configurationNames hextract) hc,
    configures_fileRecord hholds hrecord⟩

/-- Recovering a file source looks it up by the name of its component, where the path is the one
that was recorded. -/
theorem run_recoverLeaf_eq {r : Reproduction} (hr : r.Stocked) (directory : Directory)
    {leaf : Occurrence} (hleaf : leaf ∈ r.record.record.occurrences) {format : DataFormat}
    {path : String} {recorded : Fields} (hrecord : leaf.record = fileRecord format path recorded) :
    ∃ name c, Keyed.lookup name r.workshop.instances = none ∧
      r.workshop.configuration? name = some c ∧ c.className = DataSource.fileClass format ∧
      c.property? "path" = some (.value path) ∧
      (recoverLeaf directory (.ofRecord r.record.record) leaf).run r =
        (do
          match ← inWorkshop (Workshop.lookup directory name) with
          | .dataSource _ source => pure source
          | _ => throw (.recovery (.notDataSource name)) : Step DataSource).run r := by
  rcases DependencyOrder.exists_get? hleaf with ⟨p, hget⟩
  have hname : (DependencyOrder.ofRecord r.record.record).nameOf? leaf =
      some (componentName leaf.record.className p) := by
    rw [DependencyOrder.nameOf?, (DependencyOrder.get?_eq_some_iff.1 hget).2]
    rfl
  obtain ⟨hinstance, c, hconfig, hclass, hpath⟩ :=
    hr.registered leaf hleaf format path recorded hrecord _ hname
  have hconf : leaf.record.configurable = true := by
    rw [hrecord]
    rfl
  have hkind : r.workshop.catalog.kindOf? leaf.record.className = some .dataSource := by
    rw [hr.catalog, hrecord, Catalog.kindOf?]
    exact congrArg (Option.map CatalogEntry.kind) (Workshop.entry?_fileClass format)
  refine ⟨_, c, hinstance, hconfig, hclass, hpath, ?_⟩
  rw [recoverLeaf]
  simp only [hconf, Bool.not_true, Bool.false_eq_true, if_false]
  rw [run_get_bind]
  simp only [hkind, ne_eq, not_true_eq_false, if_false]
  split
  · rename_i hnone
    rw [hname] at hnone
    exact absurd hnone (by simp)
  · rename_i name hsome
    obtain rfl := Option.some.inj (hname.symm.trans hsome)
    rfl

/-- Recovering a file source loads the file at the recorded path. -/
theorem run_recoverLeaf {r : Reproduction} (hr : r.Stocked) {directory : Directory}
    {leaf : Occurrence} (hleaf : leaf ∈ r.record.record.occurrences) {format : DataFormat}
    {path : String} {recorded : Fields} (hrecord : leaf.record = fileRecord format path recorded)
    {source : DataSource} (hfile : DataSource.ofFile format directory (.ofText path) = .ok source) :
    ∃ w, (recoverLeaf directory (.ofRecord r.record.record) leaf).run r =
        (.ok source, { r with workshop := w }) ∧ w.trainers = r.workshop.trainers := by
  obtain ⟨name, c, hinstance, hconfig, hclass, hpath, hrun⟩ :=
    run_recoverLeaf_eq hr directory hleaf hrecord
  have hlookup := Workshop.run_lookup_file hr.catalog hr.idle hinstance hconfig hclass hpath hfile
  rw [hrun, run_bind_ok (run_inWorkshop_ok hlookup)]
  exact ⟨_, rfl, rfl⟩

/-- Recovering a file source fails where the file at the recorded path cannot be loaded. -/
theorem run_recoverLeaf_error {r : Reproduction} (hr : r.Stocked) {directory : Directory}
    {leaf : Occurrence} (hleaf : leaf ∈ r.record.record.occurrences) {format : DataFormat}
    {path : String} {recorded : Fields} (hrecord : leaf.record = fileRecord format path recorded)
    {e : Error} (hfile : DataSource.ofFile format directory (.ofText path) = .error e) :
    ∃ f w, (recoverLeaf directory (.ofRecord r.record.record) leaf).run r =
      (.error f, { r with workshop := w }) := by
  obtain ⟨name, c, hinstance, hconfig, hclass, hpath, hrun⟩ :=
    run_recoverLeaf_eq hr directory hleaf hrecord
  obtain ⟨w, hlookup⟩ :=
    Workshop.run_lookup_file_error hr.catalog hr.idle hinstance hconfig hclass hpath hfile
  rw [hrun, run_bind_error (run_inWorkshop_error hlookup)]
  exact ⟨_, _, rfl⟩

/-- What was recorded in memory is not made anew. -/
theorem run_recoverLeaf_memory {r : Reproduction} {directory : Directory} {leaf : Occurrence}
    {order : DependencyOrder} (hconf : leaf.record.configurable = false) :
    (recoverLeaf directory order leaf).run r =
      (.error (.recovery (.notConfigurable leaf.record.className)), r) := by
  rw [recoverLeaf]
  simp only [hconf, Bool.not_false, if_true]
  rw [run_bind_error (run_throw _ _)]

/-! ## Datasets -/

/-- An inner object of the record of a model lies in the tree and has its kind. -/
theorem mem_of_required {m : ModelRecord} {key : String} {kind : RecordKind} {o : Occurrence}
    (h : m.required key kind = .ok o) : o ∈ m.record.occurrences ∧ o.record.kind = kind := by
  rw [ModelRecord.required] at h
  split at h
  · rename_i i hi
    split at h
    · rename_i hkind
      rw [← Except.ok.inj h]
      exact ⟨Occurrence.mem_of_inner? hi, hkind⟩
    · simp at h
  · simp at h

/-- The recorded dataset is an object of the tree. -/
theorem mem_of_dataset {m : ModelRecord} {o : Occurrence} (h : m.dataset = .ok o) :
    o ∈ m.record.occurrences :=
  (mem_of_required h).1

/-- Whether the walk from a recorded dataset, through its datasets to a source and through the
splits of that to a leaf, meets what a plan does with its leaf. -/
structure Retraces (plan : DatasetPlan) (o : Occurrence) (l : Lineage) (leaf : Occurrence)
    (steps : List SplitStep) : Prop where
  lineage : o.lineage = .ok l
  chain : l.leaf.splitChain = .ok (leaf, steps)
  splits : ∀ found : DataSource,
    (found.replaySplits steps).toOption = (plan.source.rebuiltOn found).toOption
  wrapper : l.wrapper.record.className = "MutableDataset"
  layers : (∀ threshold ∈ plan.thresholds, threshold.toNat < 2 ^ 63) → ∀ base,
    rewrapAll .standard base l.outer.reverse = plan.layered base

/-- The walk from a recorded dataset retraces the plan that loaded it, and ends at the record of
what the leaf of the plan loads. -/
theorem exists_walk {directory : Directory} {plan : DatasetPlan} {d : Dataset}
    (hload : plan.load directory = .ok d) {m : ModelRecord} {o : Occurrence}
    (hm : m.dataset = .ok o) (ho : o.record = d.record) :
    ∃ l leaf steps found, Retraces plan o l leaf steps ∧ leaf ∈ m.record.occurrences ∧
      plan.source.leaf.load directory = .ok found ∧ leaf.record = found.record := by
  obtain ⟨l, source, base, hl, hinside, hwrapper, hsource, hrecord, -, hlayers⟩ :=
    Occurrence.lineage_of_load hload ho
  obtain ⟨leaf, found, steps, hchain, hleaf, hfound, hleafRecord, hsplits⟩ :=
    Occurrence.splitChain_of_load hsource hrecord
  have hmem : leaf ∈ m.record.occurrences := by
    have hlmem := Record.mem_occurrences_of_inside (mem_of_dataset hm) hinside
    rcases hleaf with rfl | hleaf
    · exact hlmem
    · exact Record.mem_occurrences_of_inside hlmem hleaf
  exact ⟨l, leaf, steps, found, ⟨hl, hchain, hsplits, hwrapper, hlayers⟩, hmem, hfound,
    hleafRecord⟩

section Walks

variable {directory : Directory} {plan : DatasetPlan} {r : Reproduction} {o leaf : Occurrence}
  {l : Lineage} {steps : List SplitStep}

/-- The recovery of a dataset fails where that of its leaf does. -/
theorem run_recoverDataset_of_leaf_error (hwalk : Retraces plan o l leaf steps)
    (hm : r.record.dataset = .ok o) {e : Error} {s : Reproduction}
    (hleaf : (recoverLeaf directory (.ofRecord r.record.record) leaf).run r = (.error e, s)) :
    (recoverDataset directory).run r = (.error e, s) := by
  rw [recoverDataset, run_get_bind, hm]
  simp only [Except.mapError]
  rw [run_bind_ok (run_ofResult_ok _ _), hwalk.lineage, run_bind_ok (run_ofResult_ok _ _),
    hwalk.chain, run_bind_ok (run_ofResult_ok _ _)]
  exact run_bind_error hleaf

/-- On the leaf that is recovered the dataset is built as the plan builds it. -/
theorem run_recoverDataset_of_leaf (hwalk : Retraces plan o l leaf steps)
    (hthresholds : ∀ threshold ∈ plan.thresholds, threshold.toNat < 2 ^ 63)
    (hm : r.record.dataset = .ok o) (hcatalog : r.workshop.catalog = .standard)
    {found : DataSource} {w : Workshop}
    (hleaf : (recoverLeaf directory (.ofRecord r.record.record) leaf).run r =
      (.ok found, { r with workshop := w })) :
    (∀ d, plan.build found = .ok d → (recoverDataset directory).run r =
      (.ok d, { r with workshop := w, stage := .datasetRecovered })) ∧
    ∀ e, plan.build found = .error e → ∃ f, (recoverDataset directory).run r =
      (.error f, { r with workshop := w }) := by
  have hwrap : ∀ source, Catalog.standard.wrap l.wrapper.record.className source =
      Dataset.ofSource source := by
    intro source
    rw [hwalk.wrapper]
    rfl
  have hsplits := hwalk.splits found
  rw [recoverDataset, run_get_bind, hm]
  simp only [Except.mapError]
  rw [run_bind_ok (run_ofResult_ok _ _), hwalk.lineage, run_bind_ok (run_ofResult_ok _ _),
    hwalk.chain, run_bind_ok (run_ofResult_ok _ _)]
  simp only
  rw [run_bind_ok hleaf, DatasetPlan.build, hcatalog]
  -- the plan and the recovery fail at the same one of splitting, wrapping and filtering
  cases hover : plan.source.rebuiltOn found with
  | error e =>
      rw [hover] at hsplits
      cases hreplay : found.replaySplits steps with
      | error f => exact ⟨by simp [bind, Except.bind], fun _ _ => ⟨f, rfl⟩⟩
      | ok source => simp [hreplay, Except.toOption] at hsplits
  | ok source =>
      rw [hover] at hsplits
      rw [toOption_eq_some_iff.1 hsplits, run_bind_ok (run_ofResult_ok _ _), hwrap]
      cases hbase : Dataset.ofSource source with
      | error e => exact ⟨by simp [bind, Except.bind, hbase], fun _ _ => ⟨e, rfl⟩⟩
      | ok base =>
          rw [run_bind_ok (run_ofResult_ok _ _), hwalk.layers hthresholds]
          cases hlayered : plan.layered base with
          | error e => exact ⟨by simp [bind, Except.bind, hbase, hlayered], fun _ _ => ⟨e, rfl⟩⟩
          | ok d =>
              refine ⟨fun other hother => ?_, by simp [bind, Except.bind, hbase, hlayered]⟩
              obtain rfl : d = other := by simpa [bind, Except.bind, hbase, hlayered] using hother
              rfl

end Walks

section Files

variable {directory : Directory} (hfiles : directory.Addressable) {plan : DatasetPlan}
  (hplan : plan.source.overFile = true) {d : Dataset} (hload : plan.load directory = .ok d)
  {r : Reproduction} (hr : r.Stocked) {o : Occurrence} (hm : r.record.dataset = .ok o)
  (ho : o.record = d.record)
include hfiles hplan hload hr hm ho

/-- Over a file that dataset is recovered that is loaded from the recorded path, and nothing where
none is. -/
theorem run_recoverDataset_asRecorded :
    (∀ e, plan.asRecorded.load directory = .ok e → ∃ w, (recoverDataset directory).run r =
        (.ok e, { r with workshop := w, stage := .datasetRecovered }) ∧
      w.trainers = r.workshop.trainers) ∧
    ∀ fault, plan.asRecorded.load directory = .error fault →
      ∃ e w, (recoverDataset directory).run r = (.error e, { r with workshop := w }) := by
  obtain ⟨l, leaf, steps, found, hwalk, hleaf, hfound, hrecord⟩ := exists_walk hload hm ho
  rcases SourcePlan.exists_leaf_file hplan with ⟨format, path, hfile⟩
  rw [hfile] at hfound
  have hleafRecord : leaf.record = fileRecord format path.lossy
      [("num-examples", DataSource.recordedSize found.samples)] := by
    rw [hrecord]
    exact DataSource.record_of_ofFile hfound
  -- the described plan differs from the plan in the path alone
  have hagain : plan.asRecorded.load directory =
      DataSource.ofFile format directory (.ofText path.lossy) >>= plan.build := by
    rw [DatasetPlan.load_eq_build, DatasetPlan.build_asRecorded, DatasetPlan.source_asRecorded,
      SourcePlan.leaf_asRecorded, hfile]
    rfl
  rw [hagain]
  cases hsource : DataSource.ofFile format directory (.ofText path.lossy) with
  | error e =>
      obtain ⟨f, w, hrun⟩ := run_recoverLeaf_error hr hleaf hleafRecord hsource
      exact ⟨by simp [bind, Except.bind],
        fun _ _ => ⟨f, w, run_recoverDataset_of_leaf_error hwalk hm hrun⟩⟩
  | ok source =>
      obtain ⟨w, hrun, htrainers⟩ := run_recoverLeaf hr hleaf hleafRecord hsource
      obtain ⟨hok, herror⟩ := run_recoverDataset_of_leaf hwalk
        (DatasetPlan.thresholds_lt hfiles hplan hload) hm hr.catalog hrun
      refine ⟨fun e he => ⟨w, hok e he, htrainers⟩, fun fault hfault => ?_⟩
      obtain ⟨f, hf⟩ := herror fault hfault
      exact ⟨f, w, hf⟩

/-- Over a file at a path that is a text the dataset is recovered as it was loaded. -/
theorem run_recoverDataset (hpath : plan.source.NamedByText) :
    ∃ w, (recoverDataset directory).run r =
        (.ok d, { r with workshop := w, stage := .datasetRecovered }) ∧
      w.trainers = r.workshop.trainers := by
  refine (run_recoverDataset_asRecorded hfiles hplan hload hr hm ho).1 d ?_
  rw [DatasetPlan.asRecorded_eq_iff.2 hpath]
  exact hload

end Files

/-- Over samples in memory the dataset is not recovered. -/
theorem run_recoverDataset_memory {directory : Directory} {plan : DatasetPlan}
    (hplan : plan.source.overFile = false) {d : Dataset} (hload : plan.load directory = .ok d)
    {r : Reproduction} {o : Occurrence} (hm : r.record.dataset = .ok o)
    (ho : o.record = d.record) :
    (recoverDataset directory).run r =
      (.error (.recovery (.notConfigurable "InMemorySource")), r) := by
  obtain ⟨l, leaf, steps, found, hwalk, hleaf, hfound, hrecord⟩ := exists_walk hload hm ho
  rcases SourcePlan.exists_leaf_memory hplan with ⟨names, samples, description, hmemory⟩
  rw [hmemory, SourcePlan.load, Except.ok.injEq] at hfound
  rw [← hfound] at hrecord
  have hconf : leaf.record.configurable = false := by
    rw [hrecord]
    rfl
  rw [run_recoverDataset_of_leaf_error hwalk hm (run_recoverLeaf_memory hconf), hrecord]
  rfl

/-- Over samples in memory the recorded dataset is not recovered.  Over a file that dataset is
recovered that the plan loads from the recorded path, and nothing where it loads none; so at a path
that is a text it is the dataset that was loaded, with its samples, features, labels and record. -/
theorem recoverDataset_of_load {directory : Directory} (hfiles : directory.Addressable)
    {plan : DatasetPlan} {d : Dataset} (hload : plan.load directory = .ok d) {m : ModelRecord}
    {o : Occurrence} (hm : m.dataset = .ok o) (ho : o.record = d.record) {r : Reproduction}
    (hr : ofRecord m .standard = .ok r) :
    (plan.source.overFile = false → ((recoverDataset directory).run r).1 =
      .error (.recovery (.notConfigurable "InMemorySource"))) ∧
    (plan.source.overFile = true →
      ((recoverDataset directory).run r).1.toOption = (plan.asRecorded.load directory).toOption ∧
      (plan.source.NamedByText → ((recoverDataset directory).run r).1 = .ok d)) := by
  have hrecord : r.record = m := by
    rcases eq_of_ofRecord hr with ⟨configs, -, rfl⟩
    rfl
  rw [← hrecord] at hm
  refine ⟨fun hplan => ?_, fun hplan => ⟨?_, fun hpath => ?_⟩⟩
  · rw [run_recoverDataset_memory hplan hload hm ho]
  · obtain ⟨hok, herror⟩ :=
      run_recoverDataset_asRecorded hfiles hplan hload (stocked_of_ofRecord hr) hm ho
    cases hagain : plan.asRecorded.load directory with
    | error fault =>
        obtain ⟨e, w, hrun⟩ := herror fault hagain
        rw [hrun]
        rfl
    | ok e =>
        obtain ⟨w, hrun, -⟩ := hok e hagain
        rw [hrun]
  · obtain ⟨w, hrun, -⟩ :=
      run_recoverDataset hfiles hplan hload (stocked_of_ofRecord hr) hm ho hpath
    rw [hrun]

/-- Four points on two axes. -/
def axesText : ByteArray :=
  "x,y,label\n1,0,1\n0,2,-1\n3,0,1\n0,4,-1\n".toUTF8

/-- The points in a file. -/
def axes : Directory :=
  Folder.directory ⟨[(.ofText "axes.csv", axesText)]⟩

/-- The test side of the train side of the points at a path, filtered twice. -/
def planAt (path : OsPath) : DatasetPlan :=
  .atLeast 1 (.atLeast 1 (.whole (.split (.split (.file .csv path) 0.75 2 .train) 0.5 3 .test)))

/-- The plan for the points in their file. -/
def axesPlan : DatasetPlan :=
  planAt (.ofText "axes.csv")

theorem addressable_axes : axes.Addressable :=
  Folder.addressable_directory (by decide +kernel)

/-- Through two splits and two filters the points are recovered from the record of a model. -/
theorem recoverDataset_of_load_axes :
    ∃ d r, axesPlan.load axes = .ok d ∧
      ofRecord (.ofTraining d .standard ⟨⟨0, 0⟩, "linux", "x86_64"⟩) .standard = .ok r ∧
      ((recoverDataset axes).run r).1 = .ok d := by
  have hloads : (axesPlan.load axes).isOk = true := by decide +kernel
  cases hload : axesPlan.load axes with
  | error e => simp [hload, Except.isOk, Except.toBool] at hloads
  | ok d =>
      obtain ⟨configs, hextract⟩ :=
        ModelRecord.extract_ofTraining hload .standard ⟨⟨0, 0⟩, "linux", "x86_64"⟩
      have hr := ofRecord_of_extract hextract .standard
      exact ⟨d, _, rfl, hr, ((recoverDataset_of_load addressable_axes hload
        (ModelRecord.dataset_ofTraining hload _ _) rfl hr).2 rfl).2 (by decide +kernel)⟩

/-- The points in a file whose name is no text. -/
def strayAxes : Directory :=
  Folder.directory ⟨[(.unreadable, axesText)]⟩

/-- A dataset over a file need not be recovered: from the file whose name is no text the points are
loaded, and no file has the name that is recorded. -/
theorem recoverDataset_not_of_load :
    ¬∀ (directory : Directory) (plan : DatasetPlan) (d : Dataset) (m : ModelRecord) (o : Occurrence)
      (r : Reproduction), directory.Addressable → plan.load directory = .ok d →
        plan.source.overFile = true → m.dataset = .ok o → o.record = d.record →
          ofRecord m .standard = .ok r → ((recoverDataset directory).run r).1 = .ok d := by
  intro hclaim
  have hruns : (((planAt .unreadable).load strayAxes).toOption.any fun d =>
      (ofRecord (.ofTraining d .standard ⟨⟨0, 0⟩, "linux", "x86_64"⟩) .standard).toOption.any
        fun r => !((recoverDataset strayAxes).run r).1.isOk) = true := by decide +kernel
  simp only [Option.any_eq_true, toOption_eq_some_iff] at hruns
  obtain ⟨d, hload, r, hr, hfails⟩ := hruns
  rw [hclaim strayAxes (planAt .unreadable) d _ _ r
    (Folder.addressable_directory (by decide +kernel)) hload rfl
    (ModelRecord.dataset_ofTraining hload _ _) rfl hr] at hfails
  simp [Except.isOk, Except.toBool] at hfails

end Reproduction
end Retrace
