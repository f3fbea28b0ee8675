import Retrace.Decimal.Fixed
import Retrace.Scalar

/-!
# Confusion counts

What a classifier got right and wrong on labelled samples, and the usual ratios of these counts.
Counts are 64-bit words and their sums wrap; a ratio with a denominator of zero is zero.
-/

namespace Retrace

/-- Samples by their true label and by whether the classifier found it. -/
structure Confusion where
  truePositives : UInt64
  trueNegatives : UInt64
  falsePositives : UInt64
  falseNegatives : UInt64
deriving DecidableEq, Repr

namespace Confusion

/-- Nothing counted yet. -/
def empty : Confusion :=
  ⟨0, 0, 0, 0⟩

/-- Count one sample by whether it was predicted positive and whether it is positive. -/
def add (c : Confusion) (predicted actual : Bool) : Confusion :=
  match predicted, actual with
  | true, true => { c with truePositives := c.truePositives + 1 }
  | false, false => { c with trueNegatives := c.trueNegatives + 1 }
  | true, false => { c with falsePositives := c.falsePositives + 1 }
  | false, true => { c with falseNegatives := c.falseNegatives + 1 }

/-- A ratio of two counts; zero if there is nothing to divide by. -/
def ratio (numerator denominator : UInt64) : Float :=
  if denominator = 0 then 0 else numerator.toFloat / denominator.toFloat

/-- The number of samples. -/
def total (c : Confusion) : UInt64 :=
  c.truePositives + c.trueNegatives + c.falsePositives + c.falseNegatives

/-- The part of the samples that were classified correctly. -/
def accuracy (c : Confusion) : Float :=
  ratio (c.truePositives + c.trueNegatives) c.total

/-- The part of the samples called positive that are positive. -/
def precision (c : Confusion) : Float :=
  ratio c.truePositives (c.truePositives + c.falsePositives)

/-- The part of the positive samples that were called positive. -/
def sensitivity (c : Confusion) : Float :=
  ratio c.truePositives (c.truePositives + c.falseNegatives)

/-- The harmonic mean of precision and sensitivity. -/
def f1 (c : Confusion) : Float :=
  let p := c.precision
  let r := c.sensitivity
  if p + r == 0 then 0 else 2 * (p * r) / (p + r)

/-- The part of the negative samples that were called negative. -/
def specificity (c : Confusion) : Float :=
  ratio c.trueNegatives (c.trueNegatives + c.falsePositives)

/-- The report, one line for every ratio and one for the counts. -/
def reportLines (c : Confusion) : List String :=
  ["Accuracy:    " ++ Decimal.fixed 4 c.accuracy,
    "Precision:   " ++ Decimal.fixed 4 c.precision,
    "Recall:      " ++ Decimal.fixed 4 c.sensitivity,
    "F1 Score:    " ++ Decimal.fixed 4 c.f1,
    "Specificity: " ++ Decimal.fixed 4 c.specificity,
    "Confusion:   TP=" ++ toString c.truePositives ++ " TN=" ++ toString c.trueNegatives ++
      " FP=" ++ toString c.falsePositives ++ " FN=" ++ toString c.falseNegatives]

/-- The text of the report. -/
def render (c : Confusion) : String :=
  "\n".intercalate c.reportLines

end Confusion
end Retrace
