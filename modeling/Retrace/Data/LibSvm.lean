import Retrace.Data.Table
import Retrace.Text.Fields

/-!
# Files of indexed values

Every line has the label and then pairs of an index and a value with a colon between them.  Indices
count from one.  There are as many features as the greatest index says.

Main results:

- Theorem `index_lt_dimension`: every stored index is below the number of features.
-/

namespace Retrace
namespace LibSvm

/-- Read a pair; the index is lowered to count from zero. -/
def readPair (token : List Char) : Except LineFault (Nat × Float) :=
  match Text.cutAt ':' token with
  | none => .error (.badPair (String.ofList token))
  | some (index, value) =>
      match Decimal.readUInt64 index with
      | .error _ => .error (.badIndex (String.ofList index))
      | .ok i =>
          match Table.number? value with
          | none => .error (.badValue (String.ofList value))
          | some x => if i = 0 then .error .zeroIndex else .ok (i.toNat - 1, x)

/-- Read pairs. -/
def readPairs : List (List Char) → Except LineFault (List (Nat × Float))
  | [] => .ok []
  | token :: rest =>
      match readPair token with
      | .error fault => .error fault
      | .ok entry => (readPairs rest).map (entry :: ·)

/-- Read one line that has content. -/
def readSample (line : List Char) : Except LineFault (Sample Float) :=
  match Text.words line with
  | [] => .error .emptyLine
  | first :: tokens =>
      match Table.number? first with
      | none => .error (.badLabel (String.ofList first))
      | some label => (readPairs tokens).map fun entries => ⟨.ofEntries entries, binaryLabel label⟩

/-- One more than the greatest index of a vector. -/
def width (v : SparseVector Float) : Nat :=
  match v.indices.getLast? with
  | some i => i + 1
  | none => 0

/-- The number of features that samples mention. -/
def dimension (samples : List (Sample Float)) : Nat :=
  samples.foldr (fun s d => max (width s.features) d) 0

/-- The greatest number of feature names that are listed. -/
def mostNames : Nat :=
  (UInt64.size / 2 - 1) / 24

/-- The table of a file of indexed values. -/
def parse (content : ByteArray) : Except TableFault Table :=
  let step := fun samples line => (readSample line).map fun s => s :: samples
  match Table.foldLines .libsvm step [] 1 (Text.contentLines content) with
  | .error fault => .error fault
  | .ok samples =>
      if samples.isEmpty then .error .noSamples
      else
        let count := dimension samples
        if mostNames < count then .error (.breach .capacity)
        else .ok ⟨(List.range count).map defaultFeatureName, samples.reverse⟩

/-! ## Laws -/

theorem width_le_dimension {samples : List (Sample Float)} {s : Sample Float} (h : s ∈ samples) :
    width s.features ≤ dimension samples := by
  induction samples with
  | nil => simp at h
  | cons t rest ih =>
      simp only [dimension, List.foldr_cons]
      rcases List.mem_cons.1 h with rfl | h
      · exact Nat.le_max_left _ _
      · exact Nat.le_trans (ih h) (Nat.le_max_right _ _)

/-- Every stored index is below the number of features. -/
theorem index_lt_dimension {samples : List (Sample Float)} {s : Sample Float} (h : s ∈ samples)
    (hsorted : s.features.WellFormed) {i : Nat} (hi : i ∈ s.features.indices) :
    i < dimension samples := by
  refine Nat.lt_of_lt_of_le ?_ (width_le_dimension h)
  unfold width
  split
  · rename_i last hlast
    have hle : i ≤ last := by
      obtain ⟨before, hsplit⟩ := List.getLast?_eq_some_iff.1 hlast
      have hpair := hsorted.2
      rw [hsplit] at hi hpair
      rcases List.mem_append.1 hi with hi | hi
      · exact (List.pairwise_append.1 hpair).2.2 i hi last (by simp)
      · simp only [List.mem_singleton] at hi
        exact Nat.le_of_eq hi
    omega
  · rename_i hnone
    rw [List.getLast?_eq_none_iff] at hnone
    simp [hnone] at hi

end LibSvm
end Retrace
