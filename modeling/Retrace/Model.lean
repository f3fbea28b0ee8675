import Retrace.Confusion
import Retrace.Data.Dataset
import Retrace.Record.Model

/-!
# Models

A model keeps the support vectors that a search found, each with its multiplier times its label, the
kernel, the bias, what was observed of the training data, and the record of how it was made.  The
decision on a vector is the weighted sum of its kernel values with the support vectors, plus the
bias; its sign is the predicted label.

Main results:

- Theorem `label_predict?`: a predicted label is one or minus one.
- Theorem `length_coefficients_ofSolution`: every support vector has its coefficient.
-/

namespace Retrace

/-- A trained classifier. -/
structure Model where
  kernel : Kernel
  supportVectors : List (SparseVector Float)
  coefficients : List Float
  bias : Float
  supportIndices : List Nat
  features : FeatureMap
  labels : LabelCounts
  record : ModelRecord

/-- A predicted label with the decision that it is the sign of. -/
structure Prediction where
  label : Float
  decision : Float
deriving DecidableEq, Repr

/-- How far a decision is from zero. -/
def Prediction.confidence (p : Prediction) : Float :=
  p.decision.abs

namespace Model

/-- The class name of models. -/
def className : String :=
  "SVMModel"

/-- Every support vector with its coefficient, for a solution on samples. -/
def supportEntries {α : Type} [Scalar α] (samples : List (Sample α)) (solution : Solution α) :
    List (SparseVector α × α) :=
  solution.support.filterMap fun i =>
    match samples[i]?, solution.alpha[i]? with
    | some s, some a => some (s.features, a * s.label)
    | _, _ => none

/-- The kernel values of support vectors, each times its coefficient; nothing if one of them has no
value. -/
def terms? {α : Type} [Scalar α] (value? : SparseVector α → Option α) :
    List (SparseVector α × α) → Option (List α)
  | [] => some []
  | (support, coefficient) :: rest =>
      match value? support, terms? value? rest with
      | some value, some more => some (coefficient * value :: more)
      | _, _ => none

/-- The weighted sum of kernel values and a bias. -/
def weigh? {α : Type} [Scalar α] (value? : SparseVector α → Option α)
    (entries : List (SparseVector α × α)) (bias : α) : Option α :=
  (terms? value? entries).map fun terms => Scalar.total terms + bias

/-- The model that a solution on a dataset makes. -/
def ofSolution (kernel : Kernel) (d : Dataset) (solution : Solution Float) (record : ModelRecord) :
    Model where
  kernel := kernel
  supportVectors := (supportEntries d.samples solution).map Prod.fst
  coefficients := (supportEntries d.samples solution).map Prod.snd
  bias := solution.bias
  supportIndices := solution.support
  features := d.features
  labels := d.labels
  record := record

/-- The decision on a vector. -/
def decision? (m : Model) (v : SparseVector Float) : Option Float :=
  weigh? (fun support => m.kernel.value? support v) (m.supportVectors.zip m.coefficients) m.bias

/-- The prediction for a vector. -/
def predict? (m : Model) (v : SparseVector Float) : Option Prediction :=
  (m.decision? v).map fun decision => ⟨if 0 ≤ decision then 1 else -1, decision⟩

/-- The predictions for samples. -/
def predictAll (m : Model) : List (Sample Float) → Result (List Prediction)
  | [] => .ok []
  | s :: rest =>
      match m.predict? s.features with
      | none => .error (.breach .outOfRange)
      | some p => (m.predictAll rest).map fun ps => p :: ps

/-- What a model gets right and wrong on samples. -/
def evaluate (m : Model) (samples : List (Sample Float)) : Result Confusion :=
  (m.predictAll samples).map fun predictions =>
    (predictions.zip samples).foldl
      (fun counts e => counts.add (decide (0 < e.1.label)) (decide (0 < e.2.label))) .empty

/-- Whether two lists of doubles agree as numbers. -/
def agreeing (xs ys : List Float) : Bool :=
  xs.length == ys.length && (xs.zip ys).all fun p => p.1 == p.2

/-- Whether two lists of vectors agree, their values as numbers. -/
def agreeingVectors (xs ys : List (SparseVector Float)) : Bool :=
  xs.length == ys.length &&
    (xs.zip ys).all fun p => p.1.indices == p.2.indices && agreeing p.1.values p.2.values

/-- Whether two models agree, their doubles as numbers. -/
def agrees (m n : Model) : Bool :=
  m.kernel.agrees n.kernel && agreeingVectors m.supportVectors n.supportVectors &&
    agreeing m.coefficients n.coefficients && m.bias == n.bias &&
    m.supportIndices == n.supportIndices && m.features.agrees n.features && m.labels == n.labels &&
    m.record.alike n.record

/-! ## Laws -/

/-- A predicted label is one or minus one. -/
theorem label_predict? {m : Model} {v : SparseVector Float} {p : Prediction}
    (h : m.predict? v = some p) : p.label = 1 ∨ p.label = -1 := by
  simp only [predict?, Option.map_eq_some_iff] at h
  obtain ⟨decision, -, rfl⟩ := h
  simp only
  split
  · exact .inl rfl
  · exact .inr rfl

/-- Every support vector has its coefficient. -/
theorem length_coefficients_ofSolution (kernel : Kernel) (d : Dataset) (solution : Solution Float)
    (record : ModelRecord) :
    (ofSolution kernel d solution record).coefficients.length =
      (ofSolution kernel d solution record).supportVectors.length := by
  simp [ofSolution]

end Model
end Retrace
