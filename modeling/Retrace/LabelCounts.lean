import Retrace.Keyed
import Retrace.Sample

/-!
# Label counts

The labels of a dataset by name, each with the number of samples that carry it.
-/

namespace Retrace

/-- How many samples carry each label, by the name of the label. -/
structure LabelCounts where
  counts : List (String × Nat)
deriving DecidableEq, Repr

namespace LabelCounts

/-- Count one more sample with the label of this name. -/
def count1 (name : String) (counts : List (String × Nat)) : List (String × Nat) :=
  Keyed.insert name ((Keyed.lookup name counts).getD 0 + 1) counts

/-- Count the labels of samples. -/
def observe (samples : List (Sample Float)) : LabelCounts :=
  ⟨samples.foldl (fun counts s => count1 (labelName s.label) counts) []⟩

/-- The number of different labels. -/
def size (l : LabelCounts) : Nat :=
  l.counts.length

/-- The number of samples that carry a label. -/
def count (l : LabelCounts) (name : String) : Nat :=
  (Keyed.lookup name l.counts).getD 0

/-- The text of label counts. -/
def render (l : LabelCounts) : String :=
  "LabelInfo(" ++ ",".intercalate (l.counts.map fun e => e.1 ++ "=" ++ toString e.2) ++ ")"

/-- Counts are kept in the order of their names. -/
theorem ascending_observe (samples : List (Sample Float)) :
    Keyed.Ascending (observe samples).counts := by
  have key : ∀ (l : List (Sample Float)) (acc : List (String × Nat)), Keyed.Ascending acc →
      Keyed.Ascending (l.foldl (fun counts s => count1 (labelName s.label) counts) acc) := by
    intro l
    induction l with
    | nil => exact fun acc h => h
    | cons s l ih => exact fun acc h => ih _ (Keyed.ascending_insert h)
  exact key samples [] trivial

end LabelCounts
end Retrace
