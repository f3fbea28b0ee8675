import Retrace.Data.Source
import Retrace.FeatureMap
import Retrace.LabelCounts

/-!
# Datasets

A dataset holds the samples of a source together with what was observed of their features and
labels.  A filtered dataset leaves out the features that are stored fewer than a number of times,
numbers the others anew, and leaves out the samples that keep no feature.

Main results:

- Theorem `samples_ne_nil_of_ofSource`: a dataset has samples.
- Theorem `samples_ne_nil_of_atLeast`: so has a filtered dataset.
-/

namespace Retrace

/-- Samples with what was observed of them. -/
structure Dataset where
  samples : List (Sample Float)
  features : FeatureMap
  labels : LabelCounts
  record : Record

namespace Dataset

/-- Samples whose features have these names, with the record of where they come from. -/
def observe (className : String) (names : List String) (samples : List (Sample Float))
    (source : Record) (observed : Fields) : Dataset :=
  let features := FeatureMap.observe names samples
  { samples := samples
    features := features
    labels := .observe samples
    record := .observed .dataset className
      (("source-provenance", source.node) :: observed ++
        [("num-examples", DataSource.recordedSize samples),
          ("num-features", .long (Int64.ofNat features.size))]) }

/-- All samples of a source. -/
def ofSource (source : DataSource) : Result Dataset :=
  if source.samples.isEmpty then .error .emptyDataset
  else .ok (observe "MutableDataset" source.names source.samples source.record [])

/-- The features that are stored at least so often. -/
def keptFeatures (d : Dataset) (threshold : UInt64) : List FeatureInfo :=
  d.features.features.filter fun f => threshold.toNat ≤ f.count

/-- The samples with the entries of kept features alone, under new numbers, without those that keep
none. -/
def keptSamples (d : Dataset) (kept : List FeatureInfo) : List (Sample Float) :=
  let ids := kept.map FeatureInfo.id
  (d.samples.map fun s => { s with features := s.features.retain ids.idxOf? }).filter fun s =>
    !s.features.isEmpty

/-- The dataset without the features that are stored fewer times than a threshold. -/
def atLeast (d : Dataset) (threshold : UInt64) : Result Dataset :=
  let kept := d.keptFeatures threshold
  let samples := d.keptSamples kept
  if samples.isEmpty then .error (.noneKept threshold)
  else .ok (observe "MinimumCardinalityDataset" (kept.map FeatureInfo.name) samples d.record
    [("min-cardinality", .long threshold.toInt64)])

/-- How many features a threshold leaves out. -/
def removedFeatures (d : Dataset) (threshold : UInt64) : Nat :=
  d.features.size - (d.keptFeatures threshold).length

/-- Filter a dataset by the threshold of a record. -/
def replay (d : Dataset) (record : Record) : Result Dataset :=
  match (record.long? "min-cardinality").filter (0 ≤ ·) with
  | some threshold => d.atLeast threshold.toUInt64
  | none => .error (.recovery (.noThreshold record.className))

/-! ## Laws -/

/-- A dataset has samples. -/
theorem samples_ne_nil_of_ofSource {source : DataSource} {d : Dataset}
    (h : ofSource source = .ok d) : d.samples ≠ [] := by
  unfold ofSource at h
  split at h
  · simp at h
  · rename_i hne
    simp only [Except.ok.injEq] at h
    subst h
    simpa [observe] using hne

/-- A filtered dataset has samples. -/
theorem samples_ne_nil_of_atLeast {d e : Dataset} {threshold : UInt64}
    (h : d.atLeast threshold = .ok e) : e.samples ≠ [] := by
  unfold atLeast at h
  simp only at h
  split at h
  · simp at h
  · rename_i hne
    simp only [Except.ok.injEq] at h
    subst h
    simpa [observe] using hne

end Dataset

/-- How to come by a dataset. -/
inductive DatasetPlan where
  | whole (source : SourcePlan)
  | atLeast (threshold : UInt64) (inner : DatasetPlan)

/-- The dataset that a plan leads to, with the files of a directory. -/
def DatasetPlan.load (directory : Directory) : DatasetPlan → Result Dataset
  | .whole plan => do
      let source ← plan.load directory
      Dataset.ofSource source
  | .atLeast threshold inner => do
      let d ← inner.load directory
      d.atLeast threshold

end Retrace
