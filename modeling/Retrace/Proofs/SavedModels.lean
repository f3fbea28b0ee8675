import Retrace.Proofs.DataSizes
import Retrace.Proofs.FittingSamples
import Retrace.Proofs.KernelMemory
import Retrace.Proofs.Retraining
import Retrace.Proofs.SearchResults
import Retrace.Proofs.StoredFiles
import Retrace.Proofs.TrainedModels

/-!
# Trained models are saved and loaded

A model that was trained on data from a file has words for all its counts, and a record whose depth
is that of its data.  So when it is saved and loaded again, it comes back as it was exactly if its
doubles are finite and the data was not split and filtered more often than the reader can follow.
Saving does not look at either: it succeeds and leaves a file that is refused.

Main results:

- Theorem `DatasetPlan.nests_load`: how deep the record of a dataset is nested.
- Theorem `Trainer.storable_of_train`: what was trained can be written without loss.
- Theorem `ModelFile.load_save_train`: which trained models are loaded again.
-/

namespace Retrace

/-! ## Records of data -/

/-- Whether the JSON of a record nests so many lists and objects, with its maps in key order. -/
structure Record.Nests (depth : Nat) (r : Record) : Prop where
  depth_eq : r.depth = depth
  mapsAscend : r.MapsAscend

/-- A record around another one is nested four levels deeper, unless its other fields are. -/
theorem Record.Nests.around {depth : Nat} {inner : Record} (h : inner.Nests depth)
    (kind : RecordKind) (className key : String) {rest : Fields}
    (hrest : Node.depthFields rest ≤ depth + 2) (hmaps : Node.MapsAscendFields rest) :
    (observed kind className ((key, inner.node) :: rest)).Nests (depth + 4) := by
  refine ⟨?_, trivial, h.mapsAscend, hmaps⟩
  have hdepth : (observed kind className ((key, inner.node) :: rest)).depth =
      max 0 (max (inner.depth + 2) (Node.depthFields rest)) + 2 := rfl
  rw [hdepth, h.depth_eq]
  omega

/-- The number of splits of a source. -/
def SourcePlan.splits : SourcePlan → Nat
  | .split inner .. => inner.splits + 1
  | _ => 0

/-- The number of splits and filters of a dataset. -/
def DatasetPlan.layers : DatasetPlan → Nat
  | .whole source => source.splits
  | .atLeast _ inner => inner.layers + 1

/-- Every split nests the record of its source deeper. -/
theorem SourcePlan.nests_load {directory : Directory} {plan : SourcePlan} {source : DataSource}
    (h : plan.load directory = .ok source) : source.record.Nests (4 * plan.splits + 5) := by
  induction plan generalizing source with
  | file format path =>
      rw [DataSource.record_of_ofFile h]
      exact ⟨rfl, ⟨trivial, trivial⟩, trivial, trivial⟩
  | memory names samples description =>
      rw [← Except.ok.inj h]
      exact ⟨rfl, trivial, trivial, trivial, trivial⟩
  | split inner proportion seed part ih =>
      rcases load_split h with ⟨found, hload, hsplit⟩
      have hfields : Node.depthFields [("seed", .long seed.toInt64),
          ("train-proportion", .double proportion), ("is-train", .boolean (part = .train))] = 3 :=
        rfl
      rw [DataSource.record_of_split hsplit]
      exact (ih hload).around _ _ _ (by omega) ⟨trivial, trivial, trivial, trivial⟩

/-- So does the dataset around the source, and every filter. -/
theorem DatasetPlan.nests_load {directory : Directory} {plan : DatasetPlan} {d : Dataset}
    (h : plan.load directory = .ok d) : d.record.Nests (4 * plan.layers + 9) := by
  induction plan generalizing d with
  | whole plan =>
      rcases load_whole h with ⟨source, hload, hd⟩
      rw [Dataset.eq_of_ofSource hd]
      refine (SourcePlan.nests_load hload).around _ _ _ ?_ ⟨trivial, trivial, trivial⟩
      exact Nat.le_trans (by rfl : _ ≤ 3) (by omega)
  | atLeast threshold inner ih =>
      rcases load_atLeast h with ⟨e, hload, hd⟩
      rw [Dataset.eq_of_atLeast hd]
      refine (ih hload).around _ _ _ ?_ ⟨trivial, trivial, trivial, trivial⟩
      exact Nat.le_trans (by rfl : _ ≤ 3) (by omega)

/-! ## Trained models -/

/-- The record of a kernel has no inner objects. -/
theorem Kernel.depth_record_le (k : Kernel) : k.record.depth ≤ 5 ∧ k.record.MapsAscend := by
  cases k with
  | linear => exact ⟨by decide, trivial, trivial⟩
  | rbf gamma => exact ⟨by rfl, ⟨trivial, trivial⟩, trivial⟩
  | polynomial degree gamma coef0 =>
      exact ⟨by rfl, ⟨trivial, trivial, trivial, trivial⟩, trivial⟩

/-- The record of a trainer is not deep, and its maps ascend. -/
theorem Trainer.depth_record_le (t : Trainer) : t.record.depth ≤ 9 ∧ t.record.MapsAscend := by
  obtain ⟨hkernel, hmaps⟩ := t.kernel.depth_record_le
  refine ⟨?_, ⟨trivial, trivial, trivial, trivial, trivial, trivial, hmaps, trivial⟩,
    trivial, trivial⟩
  rw [Record.depth]
  simp only [record, recordAt, Record.rebuildable, Node.depthFields, Node.depth_node, Node.double,
    Node.long, Node.depth]
  omega

/-- The record of a model is nested four levels deeper than that of its data, which is nested deeper
than that of the trainer. -/
theorem ModelRecord.nests_ofTraining {directory : Directory} {plan : DatasetPlan} {d : Dataset}
    (h : plan.load directory = .ok d) (t : Trainer) (occasion : Occasion) :
    (ofTraining d t occasion).record.Nests (4 * plan.layers + 13) := by
  obtain ⟨htrainer, hmaps⟩ := t.depth_record_le
  refine (DatasetPlan.nests_load h).around _ _ _ ?_
    ⟨hmaps, trivial, trivial, trivial, trivial, trivial⟩
  simp only [Node.depthFields, Node.depth_node, Node.text, Node.depth]
  omega

/-- The record of a trained model is accepted as that of a model. -/
theorem ModelRecord.ofRecord_ofTraining {directory : Directory} {plan : DatasetPlan} {d : Dataset}
    (h : plan.load directory = .ok d) (t : Trainer) (occasion : Occasion) :
    ofRecord (ofTraining d t occasion).record = .ok (ofTraining d t occasion) := by
  have hkind : (ofTraining d t occasion).record.kind = .model := rfl
  simp only [ofRecord, hkind, if_true, dataset_ofTraining h t occasion,
    trainer_ofTraining d t occasion]

/-- The labels of a dataset are those of its samples. -/
theorem DatasetPlan.labels_load {directory : Directory} {plan : DatasetPlan} {d : Dataset}
    (h : plan.load directory = .ok d) : d.labels = .observe d.samples := by
  cases plan with
  | whole plan =>
      rcases load_whole h with ⟨source, -, hd⟩
      rw [Dataset.eq_of_ofSource hd]
      rfl
  | atLeast threshold inner =>
      rcases load_atLeast h with ⟨e, -, hd⟩
      rw [Dataset.eq_of_atLeast hd]
      rfl

/-- The features are numbered by their places. -/
theorem FeatureMap.id_lt_of_mem {names : List String} {samples : List (Sample Float)}
    {f : FeatureInfo} (h : f ∈ (observe names samples).features) : f.id < names.length := by
  simp only [observe, List.mem_mapIdx] at h
  rcases h with ⟨id, hid, rfl⟩
  cases valuesOf (storedEntries samples) id <;> exact hid

variable {directory : Directory} {plan : DatasetPlan} {d : Dataset} {t after : Trainer}
  {occasion : Occasion} {m : Model}

/-- What was trained on data from a file can be written without loss. -/
theorem Trainer.storable_of_train (hfiles : directory.Addressable)
    (hload : plan.load directory = .ok d) (hplan : plan.source.overFile = true)
    (htrain : t.train occasion d = (.ok m, after)) : m.Storable := by
  obtain ⟨-, hrecord, -⟩ := train_occasion htrain
  obtain ⟨hcolumns, hsamples⟩ := DatasetPlan.sizes_load hfiles hplan hload
  have hfits := DatasetPlan.fits_load hplan hload
  have hstored := DatasetPlan.stored_load hfiles hplan hload
  obtain ⟨names, hnames⟩ := DatasetPlan.features_load hload
  -- all numbers of the model are bounded by the sizes of its data
  have hword : 2 ^ 63 < UInt64.size := by decide
  have hvectors := @exists_sample_of_support _ _ _ _ _ htrain
  obtain ⟨solution, hsolve, hm⟩ := exists_solution_of_train htrain
  have hsupport := Search.lt_length_of_support hsolve
  have hfeatures : m.features = d.features := by rw [hm]; rfl
  have hlabels : m.labels = .observe d.samples := by
    rw [hm, ← DatasetPlan.labels_load hload]
    rfl
  have hindices : m.supportIndices = solution.support := by rw [hm]; rfl
  constructor
  case vectors =>
    intro v hv i hi
    obtain ⟨s, hs, rfl⟩ := hvectors hv
    exact Nat.lt_trans ((hfits s hs).index_lt i hi) (Nat.lt_trans hcolumns hword)
  case indices =>
    intro i hi
    exact Nat.lt_trans (hsupport i (hindices ▸ hi)) (Nat.lt_trans hsamples hword)
  case features =>
    intro f hf
    rw [hfeatures, hnames] at hf
    rw [hnames, FeatureMap.size_observe] at hcolumns
    have hid := FeatureMap.id_lt_of_mem hf
    have hcount := Dataset.count_le_stored hf
    exact ⟨by omega, by omega⟩
  case labels =>
    intro e he
    rw [hlabels] at he
    have hcount := LabelCounts.le_length_of_mem d.samples e he
    omega
  case labelsAscend => exact hlabels ▸ LabelCounts.ascending_observe d.samples
  case mapsAscend => exact hrecord ▸ (ModelRecord.nests_ofTraining hload t occasion).mapsAscend
  case accepted =>
    rw [hrecord]
    exact ModelRecord.ofRecord_ofTraining hload t occasion

/-- What was trained can be read from a file exactly if its doubles are finite and its data was not
split and filtered more than twenty-eight times. -/
theorem Trainer.readable_iff_of_train (hload : plan.load directory = .ok d)
    (htrain : t.train occasion d = (.ok m, after)) :
    m.Readable ↔ (∀ x ∈ m.doubles, x.isFinite = true) ∧ plan.layers ≤ 28 := by
  obtain ⟨-, hrecord, -⟩ := train_occasion htrain
  have hdepth := (ModelRecord.nests_ofTraining hload t occasion).depth_eq
  rw [← hrecord] at hdepth
  have hdeepest : Json.deepest = 127 := rfl
  constructor
  · intro h
    have hshallow := h.shallow
    exact ⟨h.finite, by omega⟩
  · intro h
    exact ⟨h.1, by omega⟩

/-! ## Saving and loading -/

/-- Whether what a trainer learns from the data of a plan passes a test. -/
def Trainer.learnsFrom (t : Trainer) (occasion : Occasion) (directory : Directory)
    (plan : DatasetPlan) (test : Model → Bool) : Bool :=
  match plan.load directory with
  | .error _ => false
  | .ok d =>
      match (t.train occasion d).1 with
      | .error _ => false
      | .ok m => test m

/-- A trainer that learns has loaded its data and trained on them. -/
theorem Trainer.exists_of_learnsFrom {test : Model → Bool}
    (h : t.learnsFrom occasion directory plan test = true) :
    ∃ d m after, plan.load directory = .ok d ∧ t.train occasion d = (.ok m, after) ∧
      test m = true := by
  rw [learnsFrom] at h
  split at h
  · simp at h
  · rename_i d hload
    split at h
    · simp at h
    · rename_i m htrain
      exact ⟨d, m, _, hload, Prod.ext htrain rfl, h⟩

/-- A model can be written beside the points. -/
theorem Reproduction.isOk_write_axes (content : ByteArray) :
    (axes.write (.ofText "model.json") content).isOk = true :=
  @Folder.isOk_write _ (.ofText "model.json") (by decide +kernel) _ content

/-- A model that was trained on data from a file and saved is loaded as it was, with the time of
saving, if its doubles are finite and its data was not split and filtered more than twenty-eight
times.  If not, the file that saving left is refused. -/
theorem ModelFile.load_save_train (hfiles : directory.Addressable)
    (hload : plan.load directory = .ok d) (hplan : plan.source.overFile = true)
    (htrain : t.train occasion d = (.ok m, after)) {disk files : Directory} {path : OsPath}
    {now : Occasion} (htime : now.time.IsValid) (hsave : save disk path m now = .ok files) :
    ((∀ x ∈ m.doubles, x.isFinite = true) ∧ plan.layers ≤ 28 →
        load files path = .ok (ofModel m now)) ∧
      (¬((∀ x ∈ m.doubles, x.isFinite = true) ∧ plan.layers ≤ 28) →
        load files path = .error (.format .unreadable)) := by
  rw [← Trainer.readable_iff_of_train hload htrain]
  exact load_save (Trainer.storable_of_train hfiles hload hplan htrain) htime hsave

section Axes

open Reproduction (axes axesPlan lenient addressable_axes isOk_write_axes)

/-- A minute after the beginning of 1970. -/
def minuteOne : Occasion :=
  ⟨⟨60, 0⟩, "linux", "x86_64"⟩

theorem isValid_minuteOne : minuteOne.time.IsValid := by rfl

/-- The model of points that were split twice and filtered twice is loaded again. -/
theorem ModelFile.load_save_train_axes :
    ∃ d m after files, axesPlan.load axes = .ok d ∧
      lenient.train minuteOne d = (.ok m, after) ∧
      save axes (.ofText "model.json") m minuteOne = .ok files ∧
      load files (.ofText "model.json") = .ok (ofModel m minuteOne) := by
  have htest : lenient.learnsFrom minuteOne axes axesPlan
      (fun m => m.doubles.all Float.isFinite) = true := by
    simp only [Trainer.learnsFrom, Trainer.fst_train]
    decide +kernel
  obtain ⟨d, m, after, hload, htrain, hfinite⟩ := Trainer.exists_of_learnsFrom htest
  obtain ⟨files, hsave⟩ := exists_save isOk_write_axes m minuteOne
  have hload' := (load_save_train addressable_axes hload rfl htrain isValid_minuteOne hsave).1
    ⟨List.all_eq_true.1 hfinite, by decide⟩
  exact ⟨d, m, after, files, hload, htrain, hsave, hload'⟩

/-- A trainer that is content with whatever it starts from. -/
def undemanding : Trainer :=
  { lenient with settings := { lenient.settings with tolerance := 1 / 0 } }

/-- A trainer with an infinite tolerance has settings that are accepted.  It trains a model that is
saved, and no model is loaded from the file. -/
theorem ModelFile.not_loaded_undemanding :
    undemanding.validate = .ok () ∧ undemanding.kernel.Checked ∧
      ∃ d m after files, axesPlan.load axes = .ok d ∧
        undemanding.train minuteOne d = (.ok m, after) ∧
        save axes (.ofText "model.json") m minuteOne = .ok files ∧
        load files (.ofText "model.json") = .error (.format .unreadable) := by
  have htest : undemanding.learnsFrom minuteOne axes axesPlan
      (fun m => !m.doubles.all Float.isFinite) = true := by
    simp only [Trainer.learnsFrom, Trainer.fst_train]
    decide +kernel
  obtain ⟨d, m, after, hload, htrain, hinfinite⟩ := Trainer.exists_of_learnsFrom htest
  obtain ⟨files, hsave⟩ := exists_save isOk_write_axes m minuteOne
  have hunreadable : ¬m.Readable := by
    intro hreadable
    rw [List.all_eq_true.2 hreadable.finite] at hinfinite
    simp at hinfinite
  have hstorable := Trainer.storable_of_train addressable_axes hload rfl htrain
  have hvalid : undemanding.validate = .ok () := by decide +kernel
  exact ⟨hvalid, .inr (.inl ⟨0.5, rfl⟩), d, m, after, files, hload, htrain, hsave,
    (load_save hstorable isValid_minuteOne hsave).2 hunreadable⟩

end Axes

end Retrace
