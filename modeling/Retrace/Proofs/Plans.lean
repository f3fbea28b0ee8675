import Retrace.Data.Dataset

/-!
# Plans

A plan loads a source or a dataset step by step.  What every step did can be read off what it
loaded: the record tells the kind of the step, and the parts of a plan load the parts.

The record of what was loaded describes a plan as well.  It is the plan that was followed but for
one thing: the path of a file is recorded as a text, so where it is none the described plan has its
file at another path.

Main results:

- Theorem `load_split`, `load_whole`, `load_atLeast`: what a plan loads is made from what its part
  loads.
- Theorem `kind_of_load`: sources and datasets are recorded as such.
- Theorem `load_eq_build`: a plan loads its leaf and builds on it.
- Theorem `asRecorded_eq_iff`: the described plan is the plan exactly if the path is a text.
-/

namespace Retrace

/-- What was made in two steps was made from what the first step gave. -/
theorem exists_of_bind_eq_ok {β γ : Type} {x : Result β} {f : β → Result γ} {c : γ}
    (h : x >>= f = .ok c) : ∃ b, x = .ok b ∧ f b = .ok c := by
  cases x with
  | error e => simp [bind, Except.bind] at h
  | ok b => exact ⟨b, rfl, h⟩

/-- What has a value is that value. -/
theorem toOption_eq_some_iff {ε β : Type} {r : Except ε β} {b : β} :
    r.toOption = some b ↔ r = .ok b := by
  cases r <;> simp [Except.toOption]

/-- What is made in two steps has a value if both steps have one. -/
theorem toOption_bind {ε β γ : Type} (x : Except ε β) (f : β → Except ε γ) :
    (x >>= f).toOption = x.toOption.bind fun b => (f b).toOption := by
  cases x <;> rfl

/-- Another error is no other value. -/
theorem toOption_mapError {ε ε' β : Type} (f : ε → ε') (x : Except ε β) :
    (x.mapError f).toOption = x.toOption := by
  cases x <;> rfl

/-! ## Sources -/

/-- The record of a file names its format and the text of its path. -/
theorem DataSource.record_of_ofFile {format : DataFormat} {directory : Directory} {path : OsPath}
    {source : DataSource} (h : ofFile format directory path = .ok source) :
    source.record = .rebuildable .dataSource (fileClass format) [("path", .text path.lossy)]
      [("num-examples", recordedSize source.samples)] := by
  rw [ofFile] at h
  split at h
  · simp at h
  · split at h
    · simp at h
    · rw [← Except.ok.inj h]

/-- A side of a source has its names, the samples of the side and a record of the split. -/
theorem DataSource.eq_of_split {source found : DataSource} {proportion : Float} {seed : UInt64}
    {part : Part} (h : source.split proportion seed part = .ok found) :
    found = ⟨source.names, splitSamples source.samples proportion seed part,
      .observed .splitDataSource "TrainTestSplitter"
        [("source", source.record.node), ("seed", .long seed.toInt64),
          ("train-proportion", .double proportion), ("is-train", .boolean (part = .train))]⟩ := by
  rw [split] at h
  split at h
  · exact (Except.ok.inj h).symm
  · simp at h

/-- The record of a side of a split holds the source and what it was split by. -/
theorem DataSource.record_of_split {source found : DataSource} {proportion : Float} {seed : UInt64}
    {part : Part} (h : source.split proportion seed part = .ok found) :
    found.record = .observed .splitDataSource "TrainTestSplitter"
      [("source", source.record.node), ("seed", .long seed.toInt64),
        ("train-proportion", .double proportion), ("is-train", .boolean (part = .train))] := by
  rw [eq_of_split h]

namespace SourcePlan

/-- Whether the samples of a source come from a file in the end. -/
def overFile : SourcePlan → Bool
  | .file .. => true
  | .memory .. => false
  | .split inner .. => inner.overFile

/-- The source at the end of a chain of splits. -/
def leaf : SourcePlan → SourcePlan
  | .split inner .. => inner.leaf
  | plan => plan

theorem exists_leaf_file {plan : SourcePlan} (h : plan.overFile = true) :
    ∃ format path, plan.leaf = .file format path := by
  induction plan with
  | file format path => exact ⟨format, path, rfl⟩
  | memory names samples description => simp [overFile] at h
  | split inner proportion seed part ih => exact ih h

/-- A plan over samples in memory ends there. -/
theorem exists_leaf_memory {plan : SourcePlan} (h : plan.overFile = false) :
    ∃ names samples description, plan.leaf = .memory names samples description := by
  induction plan with
  | file format path => simp [overFile] at h
  | memory names samples description => exact ⟨names, samples, description, rfl⟩
  | split inner proportion seed part ih => exact ih h

/-- Whether the file that the samples come from, if they do, is at a path that is a text. -/
def NamedByText : SourcePlan → Prop
  | .file _ path => path.IsText
  | .memory .. => True
  | .split inner .. => inner.NamedByText

instance decidableNamedByText : (plan : SourcePlan) → Decidable plan.NamedByText
  | .file _ path => inferInstanceAs (Decidable path.IsText)
  | .memory .. => inferInstanceAs (Decidable True)
  | .split inner .. => decidableNamedByText inner

/-- The plan that the record of a source describes. -/
def asRecorded : SourcePlan → SourcePlan
  | .file format path => .file format (.ofText path.lossy)
  | .memory names samples description => .memory names samples description
  | .split inner proportion seed part => .split inner.asRecorded proportion seed part

/-- The described plan is the plan exactly if the path is a text. -/
theorem asRecorded_eq_iff {plan : SourcePlan} : plan.asRecorded = plan ↔ plan.NamedByText := by
  induction plan with
  | file format path => simp [asRecorded, NamedByText, OsPath.ofText_lossy_eq_iff]
  | memory names samples description => simp [asRecorded, NamedByText]
  | split inner proportion seed part ih => simp [asRecorded, NamedByText, ih]

/-- The described plan ends where the leaf of the plan is described. -/
theorem leaf_asRecorded (plan : SourcePlan) : plan.asRecorded.leaf = plan.leaf.asRecorded := by
  induction plan with
  | file format path => rfl
  | memory names samples description => rfl
  | split inner proportion seed part ih => exact ih

/-- What the splits of a plan make of a source. -/
def rebuiltOn (found : DataSource) : SourcePlan → Result DataSource
  | .split inner proportion seed part => do
      let source ← inner.rebuiltOn found
      source.split proportion seed part
  | _ => .ok found

/-- A plan loads its leaf and splits it. -/
theorem load_eq_rebuiltOn (directory : Directory) (plan : SourcePlan) :
    plan.load directory = plan.leaf.load directory >>= fun found => plan.rebuiltOn found := by
  induction plan with
  | file format path => exact (bind_pure (load directory (.file format path))).symm
  | memory names samples description => rfl
  | split inner proportion seed part ih =>
      rw [load, ih, bind_assoc]
      rfl

/-- The described plan does the same with a leaf. -/
theorem rebuiltOn_asRecorded (found : DataSource) (plan : SourcePlan) :
    plan.asRecorded.rebuiltOn found = plan.rebuiltOn found := by
  induction plan with
  | file format path => rfl
  | memory names samples description => rfl
  | split inner proportion seed part ih => rw [asRecorded, rebuiltOn, rebuiltOn, ih]

/-- A split source is loaded from the source that is split. -/
theorem load_split {directory : Directory} {inner : SourcePlan} {proportion : Float}
    {seed : UInt64} {part : DataSource.Part} {found : DataSource}
    (h : (SourcePlan.split inner proportion seed part).load directory = .ok found) :
    ∃ source, inner.load directory = .ok source ∧ source.split proportion seed part = .ok found :=
  exists_of_bind_eq_ok h

/-- A source is recorded as a source or as a side of a split. -/
theorem kind_of_load {directory : Directory} {plan : SourcePlan} {source : DataSource}
    (h : plan.load directory = .ok source) :
    source.record.kind = .dataSource ∨ source.record.kind = .splitDataSource := by
  cases plan with
  | file format path =>
      rw [load] at h
      rw [DataSource.record_of_ofFile h]
      exact .inl rfl
  | memory names samples description =>
      rw [load, Except.ok.injEq] at h
      rw [← h]
      exact .inl rfl
  | split inner proportion seed part =>
      rcases load_split h with ⟨found, -, hsplit⟩
      rw [DataSource.record_of_split hsplit]
      exact .inr rfl

end SourcePlan

/-! ## Datasets -/

/-- A dataset over a source observes its samples. -/
theorem Dataset.eq_of_ofSource {source : DataSource} {d : Dataset}
    (h : ofSource source = .ok d) :
    d = observe "MutableDataset" source.names source.samples source.record [] := by
  rw [ofSource] at h
  split at h
  · simp at h
  · exact (Except.ok.inj h).symm

/-- A filtered dataset observes the samples with the features that are kept. -/
theorem Dataset.eq_of_atLeast {d e : Dataset} {threshold : UInt64}
    (h : d.atLeast threshold = .ok e) :
    e = observe "MinimumCardinalityDataset" ((d.keptFeatures threshold).map FeatureInfo.name)
      (d.keptSamples (d.keptFeatures threshold)) d.record
      [("min-cardinality", .long threshold.toInt64)] := by
  simp only [atLeast] at h
  split at h
  · simp at h
  · exact (Except.ok.inj h).symm

namespace DatasetPlan

/-- The source that a dataset is built over. -/
def source : DatasetPlan → SourcePlan
  | .whole source => source
  | .atLeast _ inner => inner.source

/-- The thresholds of a plan, the outermost first. -/
def thresholds : DatasetPlan → List UInt64
  | .whole _ => []
  | .atLeast threshold inner => threshold :: inner.thresholds

/-- The plan that the record of a dataset describes. -/
def asRecorded : DatasetPlan → DatasetPlan
  | .whole source => .whole source.asRecorded
  | .atLeast threshold inner => .atLeast threshold inner.asRecorded

/-- The described plan is the plan exactly if the path is a text. -/
theorem asRecorded_eq_iff {plan : DatasetPlan} :
    plan.asRecorded = plan ↔ plan.source.NamedByText := by
  induction plan with
  | whole inner => simp [asRecorded, source, SourcePlan.asRecorded_eq_iff]
  | atLeast threshold inner ih => simp [asRecorded, source, ih]

/-- The described plan is over the described source. -/
theorem source_asRecorded (plan : DatasetPlan) :
    plan.asRecorded.source = plan.source.asRecorded := by
  induction plan with
  | whole source => rfl
  | atLeast threshold inner ih => exact ih

/-- What the filters of a plan make of a dataset. -/
def layered (base : Dataset) : DatasetPlan → Result Dataset
  | .whole _ => .ok base
  | .atLeast threshold inner => do
      let d ← inner.layered base
      d.atLeast threshold

/-- The described plan has the same layers. -/
theorem layered_asRecorded (base : Dataset) (plan : DatasetPlan) :
    plan.asRecorded.layered base = plan.layered base := by
  induction plan with
  | whole source => rfl
  | atLeast threshold inner ih => rw [asRecorded, layered, layered, ih]

/-- What a plan makes of the source at its end. -/
def build (plan : DatasetPlan) (found : DataSource) : Result Dataset := do
  let source ← plan.source.rebuiltOn found
  let base ← Dataset.ofSource source
  plan.layered base

/-- A plan loads its leaf and builds on it. -/
theorem load_eq_build (directory : Directory) (plan : DatasetPlan) :
    plan.load directory = plan.source.leaf.load directory >>= fun found => plan.build found := by
  induction plan with
  | whole plan =>
      rw [load, SourcePlan.load_eq_rebuiltOn, bind_assoc]
      refine bind_congr fun found => bind_congr fun source => ?_
      exact (bind_pure (Dataset.ofSource source)).symm
  | atLeast threshold inner ih =>
      rw [load, ih]
      simp only [build, bind_assoc]
      rfl

/-- The described plan builds the same of a source. -/
theorem build_asRecorded (plan : DatasetPlan) : plan.asRecorded.build = plan.build := by
  funext found
  simp only [build, source_asRecorded, SourcePlan.rebuiltOn_asRecorded, layered_asRecorded]

/-- A dataset without filters is loaded from its source. -/
theorem load_whole {directory : Directory} {plan : SourcePlan} {d : Dataset}
    (h : (DatasetPlan.whole plan).load directory = .ok d) :
    ∃ source, plan.load directory = .ok source ∧ Dataset.ofSource source = .ok d :=
  exists_of_bind_eq_ok h

/-- A filtered dataset is loaded from the dataset that is filtered. -/
theorem load_atLeast {directory : Directory} {threshold : UInt64} {inner : DatasetPlan}
    {d : Dataset} (h : (DatasetPlan.atLeast threshold inner).load directory = .ok d) :
    ∃ e, inner.load directory = .ok e ∧ e.atLeast threshold = .ok d :=
  exists_of_bind_eq_ok h

/-- A dataset is recorded as one. -/
theorem kind_of_load {directory : Directory} {plan : DatasetPlan} {d : Dataset}
    (h : plan.load directory = .ok d) : d.record.kind = .dataset := by
  cases plan with
  | whole plan =>
      rcases load_whole h with ⟨source, -, hd⟩
      rw [Dataset.eq_of_ofSource hd]
      rfl
  | atLeast threshold inner =>
      rcases load_atLeast h with ⟨e, -, hd⟩
      rw [Dataset.eq_of_atLeast hd]
      rfl

end DatasetPlan
end Retrace
