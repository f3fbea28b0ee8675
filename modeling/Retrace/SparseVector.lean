import Retrace.Scalar

/-!
# Sparse vectors

A sparse vector lists the indices of its stored entries and, in the same order, their values.
Vectors are built from entries in any order: the entries are sorted by index, entries with equal
indices staying in the order in which they were given.  A vector that was read from a file may be
malformed, so the two lists are kept apart and nothing is assumed of them.

Main results:

- Theorem `wellFormed_ofEntries`: a vector that is built from entries is well formed.
-/

namespace Retrace

/-- Indices of stored entries and their values. -/
structure SparseVector (α : Type) where
  indices : List Nat
  values : List α
deriving DecidableEq, Repr

namespace SparseVector

variable {α : Type}

/-- Whether every index has a value and the indices do not descend. -/
def WellFormed (v : SparseVector α) : Prop :=
  v.indices.length = v.values.length ∧ v.indices.Pairwise (· ≤ ·)

/-- The vector with these entries. -/
def ofEntries (entries : List (Nat × α)) : SparseVector α :=
  let sorted := entries.mergeSort fun a b => a.1 ≤ b.1
  ⟨sorted.map Prod.fst, sorted.map Prod.snd⟩

/-- The vector with these indices and values; nothing if their numbers differ. -/
def ofLists? (indices : List Nat) (values : List α) : Option (SparseVector α) :=
  if indices.length = values.length then some (ofEntries (indices.zip values)) else none

/-- The stored entries in index order. -/
def entries (v : SparseVector α) : List (Nat × α) :=
  v.indices.zip v.values

/-- The number of stored entries. -/
def size (v : SparseVector α) : Nat :=
  v.indices.length

/-- Whether no entry is stored. -/
def isEmpty (v : SparseVector α) : Bool :=
  v.indices.isEmpty

/-- The last position, of `size` positions from `base` on, whose index does not exceed the target;
`base` itself if there is none.  The range is halved until one position is left. -/
def lastAtMost (indices : Array Nat) (target base size : Nat) : Nat :=
  if size ≤ 1 then base
  else
    let middle := base + size / 2
    let base' := if indices[middle]?.all (· ≤ target) then middle else base
    lastAtMost indices target base' (size - size / 2)
termination_by size
decreasing_by omega

/-- The value at an index, found by halving; zero where no entry is stored. -/
def get [Zero α] (v : SparseVector α) (index : Nat) : α :=
  let position := lastAtMost v.indices.toArray index 0 v.indices.length
  if v.indices[position]? = some index then v.values[position]?.getD 0 else 0

/-- The entries whose index is kept, under new indices. -/
def retain (v : SparseVector α) (renumber : Nat → Option Nat) : SparseVector α :=
  ofEntries (v.entries.filterMap fun e => (renumber e.1).map fun index => (index, e.2))

/-- The square of the Euclidean length. -/
def normSquared [Scalar α] (v : SparseVector α) : α :=
  Scalar.sumOfSquares v.values

/-! ## Laws -/

/-- A vector that is built from entries is well formed. -/
theorem wellFormed_ofEntries (entries : List (Nat × α)) : (ofEntries entries).WellFormed := by
  refine ⟨by simp [ofEntries], ?_⟩
  simp only [ofEntries]
  rw [List.pairwise_map]
  have h : (entries.mergeSort fun a b => decide (a.1 ≤ b.1)).Pairwise
      fun a b => decide (a.1 ≤ b.1) = true :=
    List.pairwise_mergeSort (fun a b c hab hbc => by simp at *; omega) (fun a b => by simp; omega)
      entries
  exact h.imp fun hab => by simpa using hab

/-- A vector that is built from lists is well formed. -/
theorem wellFormed_of_ofLists? {indices : List Nat} {values : List α} {v : SparseVector α}
    (h : ofLists? indices values = some v) : v.WellFormed := by
  unfold ofLists? at h
  split at h
  · simp only [Option.some.injEq] at h
    exact h ▸ wellFormed_ofEntries _
  · simp at h

/-- Keeping entries gives a well-formed vector. -/
theorem wellFormed_retain (v : SparseVector α) (renumber : Nat → Option Nat) :
    (v.retain renumber).WellFormed :=
  wellFormed_ofEntries _

end SparseVector
end Retrace
