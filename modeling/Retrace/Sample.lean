import Retrace.SparseVector

/-!
# Samples

A sample is a sparse vector of feature values with a label.  Learning knows two labels, one and
minus one; every label of a data file is brought to one of them by its sign.
-/

namespace Retrace

/-- Feature values and a label. -/
structure Sample (α : Type) where
  features : SparseVector α
  label : α
deriving DecidableEq, Repr

/-- The name under which a label is counted. -/
def labelName (label : Float) : String :=
  if 0 < label then "+1" else "-1"

/-- Bring a label to one or minus one by its sign. -/
def binaryLabel (label : Float) : Float :=
  if label == 1 || label == -1 then label
  else if 0 < label then 1
  else -1

/-- The name of a feature that was given none. -/
def defaultFeatureName (id : Nat) : String :=
  "feature-" ++ toString id

/-- A binary label is one or minus one. -/
theorem binaryLabel_eq (label : Float) :
    binaryLabel label == 1 ∨ binaryLabel label == -1 := by
  unfold binaryLabel
  split
  · rename_i h
    simpa using h
  · split
    · exact .inl (by decide)
    · exact .inr (by decide)

end Retrace
