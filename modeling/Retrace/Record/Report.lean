import Retrace.Json.Printing
import Retrace.Record.Difference
import Retrace.Record.Model

/-!
# Rendering differences

A report is rendered as JSON: the two sides carry labels, which always differ, and a difference of
kinds stands under a key of its own.

Main results:

- Theorem `labels_ne`: the two labels differ.
-/

namespace Retrace

/-- The labels of the two sides of a report. -/
structure SideLabels where
  left : String
  right : String
deriving DecidableEq, Repr

namespace SideLabels

/-- The labels where none are chosen. -/
def standard : SideLabels :=
  ⟨"original", "reproduced"⟩

/-- Chosen labels; two equal ones give way to the standard ones. -/
def choose (left right : String) : SideLabels :=
  if left = right then standard else ⟨left, right⟩

/-- The label of a side. -/
def label (l : SideLabels) : Side → String
  | .left => l.left
  | .right => l.right

/-- The two labels differ. -/
theorem labels_ne (left right : String) :
    (choose left right).left ≠ (choose left right).right := by
  unfold choose
  split
  · decide
  · assumption

end SideLabels

namespace Difference

/-- Two texts under the labels of their sides, in key order. -/
def pair (labels : SideLabels) (left right : String) : Json :=
  .record (Keyed.ofList
    [(labels.left, .string left), (labels.right, .string right)])

mutual

/-- A difference as JSON. -/
def encode (labels : SideLabels) : Difference → Json
  | .changed left right => pair labels left right
  | .only side text => .record [(labels.label side, .string text)]
  | .nested entries => .object (encodeEntries labels entries)
  | .items parts => .list (encodeItems labels parts)
  | .kinds left right => .record [("kind-mismatch", pair labels left right)]

/-- Differences of list items as JSON. -/
def encodeItems (labels : SideLabels) : List Difference → List Json
  | [] => []
  | d :: rest => encode labels d :: encodeItems labels rest

/-- Differences by key as members. -/
def encodeEntries (labels : SideLabels) : List (String × Difference) → List (List Char × Json)
  | [] => []
  | (key, d) :: rest => (Json.escape key.toList, encode labels d) :: encodeEntries labels rest

end

/-- The text of a report. -/
def renderReport (labels : SideLabels) (report : Report) : String :=
  (Json.object (encodeEntries labels report)).renderPretty

/-- The text of the differences of two records of models. -/
def compareModels (labels : SideLabels) (left right : ModelRecord) :
    Except Fault String :=
  (compareTrees left.record.node right.record.node).map (renderReport labels)

end Difference
end Retrace
