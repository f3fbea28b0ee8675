import Retrace.Sample

/-!
# Sequential minimal optimization

The multipliers of a support vector machine are found by optimizing two of them at a time.  Sweep
after sweep, every sample that violates its optimality condition is paired with a second one that is
drawn, and both multipliers move along the line that keeps their weighted sum, as far as their
bounds allow.  The search ends after a number of sweeps without a move, or after a number of sweeps.

Kernel values and draws come from a source with a state of its own, so the search is one definition
for any way to remember values and any way to draw.

Main results:

- Theorem `check_eq_none_iff`: accepted samples have labels one and minus one, both of them.
-/

namespace Retrace

/-- What went against the contract of an operation; the operation ends without a result. -/
inductive Breach where
  /-- a number was to be drawn below zero -/
  | emptyRange
  /-- something beyond the end of a list was asked for -/
  | outOfRange
  /-- the lower bound of a value is not below the upper one -/
  | boundsNotOrdered
  /-- lists that belong together have different lengths -/
  | lengths
  /-- a list would not fit into memory -/
  | capacity
deriving DecidableEq, Repr

/-- Why samples cannot be learned from. -/
inductive LabelFault (α : Type) where
  | noSamples
  | label (found : α)
  | oneClass
deriving DecidableEq, Repr

/-- When the search ends, and how far multipliers may go. -/
structure SearchLimits (α : Type) where
  /-- the upper bound of the multipliers -/
  penalty : α
  /-- how far a condition may be violated -/
  tolerance : α
  maxSweeps : Nat
  maxPasses : Nat
deriving DecidableEq, Repr

/-- What the search found. -/
structure Solution (α : Type) where
  alpha : List α
  bias : α
  /-- the samples with positive multipliers -/
  support : List Nat
  sweeps : Nat
deriving DecidableEq, Repr

namespace Smo

variable {α σ : Type} [Scalar α]

/-- A computation that asks a source with state `σ`. -/
abbrev Ask (σ : Type) := StateT σ (Except Breach)

/-- Where kernel values and draws come from. -/
structure Source (σ α : Type) where
  /-- the kernel value of two samples -/
  entry : Nat → Nat → Ask σ α
  /-- a number below a bound -/
  below : Nat → Ask σ Nat

/-- Multipliers, bias, and for every sample how far the decision misses its label. -/
structure State (α : Type) where
  alpha : List α
  bias : α
  errors : List α
deriving DecidableEq, Repr

/-- Why samples cannot be learned from, if they cannot. -/
def check (samples : List (Sample α)) : Option (LabelFault α) :=
  match samples.find? fun s => !(s.label == 1) && !(s.label == -1) with
  | some s => some (.label s.label)
  | none =>
      let positives := (samples.filter fun s => decide (0 < s.label)).length
      if samples.isEmpty then some .noSamples
      else if positives = 0 ∨ positives = samples.length then some .oneClass
      else none

/-- All multipliers zero: every decision is zero. -/
def State.initial (labels : List α) : State α :=
  ⟨labels.map fun _ => 0, 0, labels.map fun y => -y⟩

/-- Whether the sample violates its condition, given its label, error and multiplier. -/
def violates (limits : SearchLimits α) (label error alpha : α) : Bool :=
  let r := error * label
  (r < -limits.tolerance && alpha < limits.penalty) || (limits.tolerance < r && 0 < alpha)

/-- The bounds of the second multiplier. -/
def bounds (penalty yi yj ai aj : α) : α × α :=
  if yi == yj then
    (Scalar.larger (ai + aj - penalty) 0, Scalar.smaller (ai + aj) penalty)
  else
    (Scalar.larger (aj - ai) 0, Scalar.smaller (penalty + aj - ai) penalty)

/-- The least change of a multiplier that counts as a move. -/
def leastMove : α :=
  OfScientific.ofScientific 1 true 5

/-- The bias after a move: exact for the first sample if its multiplier is inside its bounds, else
for the second one, else half way between. -/
def newBias (penalty alphaI alphaJ b1 b2 : α) : α :=
  if 0 < alphaI && alphaI < penalty then b1
  else if 0 < alphaJ && alphaJ < penalty then b2
  else (b1 + b2) / (1 + 1)

/-- An entry of a list that must have it. -/
def at' (xs : List α) (i : Nat) : Ask σ α :=
  match xs[i]? with
  | some x => pure x
  | none => throw .outOfRange

/-- Add to the errors of the samples from `k` on what the move of two multipliers changes. -/
def shiftErrors (source : Source σ α) (i j : Nat) (deltaI deltaJ deltaB : α) (k : Nat) :
    List α → Ask σ (List α)
  | [] => pure []
  | e :: rest => do
      let kik ← source.entry i k
      let kjk ← source.entry j k
      let more ← shiftErrors source i j deltaI deltaJ deltaB (k + 1) rest
      pure ((e + (deltaI * kik + deltaJ * kjk + deltaB)) :: more)

/-- Optimize the multipliers of two samples together; whether they moved. -/
def takeStep (source : Source σ α) (penalty : α) (labels : List α) (i j : Nat) (s : State α) :
    Ask σ (State α × Bool) := do
  let yi ← at' labels i
  let yj ← at' labels j
  let ai ← at' s.alpha i
  let aj ← at' s.alpha j
  let ei ← at' s.errors i
  let ej ← at' s.errors j
  let (low, high) := bounds penalty yi yj ai aj
  if high ≤ low then
    return (s, false)
  let kii ← source.entry i i
  let kij ← source.entry i j
  let kjj ← source.entry j j
  let eta := (1 + 1) * kij - kii - kjj
  if 0 ≤ eta then
    return (s, false)
  match Scalar.clamp? low high (aj - yj * (ei - ej) / eta) with
  | none => throw .boundsNotOrdered
  | some newAj =>
      if Scalar.magnitude (newAj - aj) < leastMove then
        return (s, false)
      let newAi := ai + yi * yj * (aj - newAj)
      let deltaI := yi * (newAi - ai)
      let deltaJ := yj * (newAj - aj)
      let b1 := s.bias - ei - deltaI * kii - deltaJ * kij
      let b2 := s.bias - ej - deltaI * kij - deltaJ * kjj
      let bias := newBias penalty newAi newAj b1 b2
      let errors ← shiftErrors source i j deltaI deltaJ (bias - s.bias) 0 s.errors
      return (⟨(s.alpha.set i newAi).set j newAj, bias, errors⟩, true)

/-- Draw a sample other than `i` of `n` samples. -/
def drawOther (source : Source σ α) (n i : Nat) : Ask σ Nat := do
  let j ← source.below (n - 1)
  return if i ≤ j then j + 1 else j

/-- Visit one sample of a sweep; whether its multiplier moved. -/
def visit (source : Source σ α) (limits : SearchLimits α) (labels : List α) (i : Nat)
    (s : State α) : Ask σ (State α × Bool) := do
  let yi ← at' labels i
  let ai ← at' s.alpha i
  let ei ← at' s.errors i
  if violates limits yi ei ai then
    let j ← drawOther source labels.length i
    takeStep source limits.penalty labels i j s
  else
    return (s, false)

/-- Visit so many samples from `i` on; whether a multiplier moved now or before. -/
def sweepFrom (source : Source σ α) (limits : SearchLimits α) (labels : List α) (i : Nat) :
    Nat → State α → Bool → Ask σ (State α × Bool)
  | 0, s, moved => pure (s, moved)
  | steps + 1, s, moved => do
      let (s, now) ← visit source limits labels i s
      sweepFrom source limits labels (i + 1) steps s (moved || now)

/-- Sweep until so many sweeps in a row moved nothing, as the last `passes` sweeps did, or until so
many more sweeps are done.  The number of sweeps goes on from `done`. -/
def search (source : Source σ α) (limits : SearchLimits α) (labels : List α) :
    Nat → State α → Nat → Nat → Ask σ (State α × Nat)
  | 0, s, _, done => pure (s, done)
  | sweeps + 1, s, passes, done =>
      if passes < limits.maxPasses then do
        let (s, moved) ← sweepFrom source limits labels 0 labels.length s false
        search source limits labels sweeps s (if moved then 0 else passes + 1) (done + 1)
      else
        pure (s, done)

/-- The samples with positive multipliers. -/
def support (alpha : List α) : List Nat :=
  (List.range alpha.length).filter fun i => alpha[i]?.any fun a => decide (0 < a)

/-- Search from the beginning for samples with these labels. -/
def solve (source : Source σ α) (limits : SearchLimits α) (labels : List α) :
    Ask σ (Solution α) := do
  let (s, sweeps) ← search source limits labels limits.maxSweeps (.initial labels) 0 0
  return ⟨s.alpha, s.bias, support s.alpha, sweeps⟩

/-! ## Laws -/

/-- Accepted samples have labels one and minus one, both of them. -/
theorem check_eq_none_iff (samples : List (Sample α)) :
    check samples = none ↔
      (∀ s ∈ samples, (s.label == 1) = true ∨ (s.label == -1) = true) ∧
        (∃ s ∈ samples, 0 < s.label) ∧ ∃ s ∈ samples, ¬ 0 < s.label := by
  unfold check
  split
  · rename_i s hs
    have hmem := List.mem_of_find?_eq_some hs
    have hp := List.find?_some hs
    simp only [Bool.and_eq_true, Bool.not_eq_true'] at hp
    simp only [reduceCtorEq, false_iff, not_and]
    intro h
    rcases h s hmem with h | h
    · simp [h] at hp
    · simp [h] at hp
  · -- all labels are right, and both occur if some but not all are positive
    rename_i hnone
    have hall : ∀ s ∈ samples, (s.label == 1) = true ∨ (s.label == -1) = true := by
      intro s hs
      have := List.find?_eq_none.1 hnone s hs
      revert this
      cases s.label == 1 <;> cases s.label == -1 <;> simp
    simp only
    constructor
    · intro h
      split at h
      · simp at h
      · split at h
        · simp at h
        · rename_i hcount
          simp only [not_or] at hcount
          refine ⟨hall, ?_, ?_⟩
          · obtain ⟨s, hs⟩ := List.exists_mem_of_length_pos (Nat.pos_of_ne_zero hcount.1)
            simp only [List.mem_filter, decide_eq_true_eq] at hs
            exact ⟨s, hs.1, hs.2⟩
          · refine Decidable.byContradiction fun hno => hcount.2 ?_
            congr 1
            refine List.filter_eq_self.2 fun s hs => ?_
            refine Decidable.byContradiction fun hs' => hno ⟨s, hs, ?_⟩
            simpa using hs'
    · rintro ⟨-, ⟨s, hs, hpos⟩, t, ht, hnot⟩
      split
      · rename_i hempty
        simp only [List.isEmpty_iff] at hempty
        subst hempty
        simp at hs
      · split
        · rename_i hcount
          exfalso
          rcases hcount with hcount | hcount
          · have : s ∈ samples.filter fun s => decide (0 < s.label) := by simp [hs, hpos]
            rw [List.eq_nil_of_length_eq_zero hcount] at this
            simp at this
          · have := (List.length_filter_eq_length_iff.1 hcount) t ht
            simp only [decide_eq_true_eq] at this
            exact hnot this
        · rfl

end Smo
end Retrace
