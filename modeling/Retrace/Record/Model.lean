import Retrace.Instant
import Retrace.Record.Equality
import Retrace.Record.Extraction

/-!
# Records of models

The record of a model is the root of a record tree.  It holds the record of the dataset and of the
trainer and says when, by which version and on which machine the model was trained.

Main results:

- Theorem `dataset_of_ofRecord`: a record that was accepted as that of a model has a dataset and a
  trainer.
-/

namespace Retrace

/-- The version of this library that records carry. -/
def libraryVersion : String :=
  "0.1.0"

/-- When and on which machine something happens. -/
structure Occasion where
  time : Instant
  osName : String
  osArch : String
deriving DecidableEq, Repr

/-- The root of a record tree. -/
structure ModelRecord where
  record : Record
deriving Repr

namespace ModelRecord

/-- The record of a model that is trained now from a dataset by a trainer. -/
def trained (className : String) (dataset trainer : Record) (occasion : Occasion) : ModelRecord :=
  ⟨.observed .model className
    [("dataset", dataset.node),
      ("trainer", trainer.node),
      ("trained-at", .text occasion.time.render),
      ("library-version", .text libraryVersion),
      ("os-name", .text occasion.osName),
      ("os-arch", .text occasion.osArch)]⟩

/-- An inner object of a given kind. -/
def required (m : ModelRecord) (key : String) (kind : RecordKind) :
    Except ExtractionFault Occurrence :=
  match (Occurrence.root m.record).inner? key with
  | some o =>
      if o.record.kind = kind then .ok o else .error ⟨key, .wrongKind kind o.record.kind⟩
  | none => .error ⟨key, .missing⟩

/-- The record of the dataset. -/
def dataset (m : ModelRecord) : Except ExtractionFault Occurrence :=
  m.required "dataset" .dataset

/-- The record of the trainer. -/
def trainer (m : ModelRecord) : Except ExtractionFault Occurrence :=
  m.required "trainer" .trainer

/-- Accept a record as that of a model. -/
def ofRecord (r : Record) : Except ExtractionFault ModelRecord :=
  if r.kind = .model then
    match dataset ⟨r⟩, trainer ⟨r⟩ with
    | .error fault, _ => .error fault
    | _, .error fault => .error fault
    | .ok _, .ok _ => .ok ⟨r⟩
  else
    .error ⟨"", .rootKind r.kind⟩

/-- The class name of the model. -/
def className (m : ModelRecord) : String :=
  m.record.className

/-- Whether two records of models are alike. -/
def alike (m n : ModelRecord) : Bool :=
  m.record.alike n.record

/-- A record that was accepted as that of a model has a dataset and a trainer. -/
theorem dataset_of_ofRecord {r : Record} {m : ModelRecord} (h : ofRecord r = .ok m) :
    m.record = r ∧ (∃ d, m.dataset = .ok d) ∧ ∃ t, m.trainer = .ok t := by
  unfold ofRecord at h
  split at h
  · split at h
    · simp at h
    · simp at h
    · rename_i d t hd ht
      simp only [Except.ok.injEq] at h
      subst h
      exact ⟨rfl, ⟨d, hd⟩, ⟨t, ht⟩⟩
  · simp at h

end ModelRecord
end Retrace
