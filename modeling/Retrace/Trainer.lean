import Retrace.Draws
import Retrace.KernelMatrix
import Retrace.Model

/-!
# Trainers

A trainer learns models from datasets.  It counts how often it was used, and every use draws from a
stream of its own that the seed and the count determine; so a trainer that starts with a recorded
count draws what the recorded use drew.  A use that fails on its data is counted, a use of a trainer
with settings out of range is not.

Main results:

- Theorem `count_train`: a use with valid settings raises the count by one.
- Theorem `train_of_invalid`: a use with invalid settings changes nothing.
-/

namespace Retrace

/-- The settings of the search. -/
structure Settings where
  penalty : Float
  tolerance : Float
  maxSweeps : UInt64
  maxPasses : UInt64
  cacheSize : UInt64
deriving DecidableEq, Repr

namespace Settings

/-- The settings where none are given. -/
def standard : Settings where
  penalty := 1
  tolerance := 0.001
  maxSweeps := 1000
  maxPasses := 5
  cacheSize := 1000000

/-- The limits of the search. -/
def limits (s : Settings) : SearchLimits Float :=
  ⟨s.penalty, s.tolerance, s.maxSweeps.toNat, s.maxPasses.toNat⟩

/-- Why settings are refused, if they are. -/
def fault? (s : Settings) : Option ParameterFault :=
  if !Kernel.isPositive s.penalty then some (.penalty s.penalty)
  else if !decide (0 < s.tolerance) then some (.tolerance s.tolerance)
  else if s.maxPasses = 0 then some .passes
  else none

end Settings

/-! ## Searching -/

namespace Search

/-- The kernel value of two samples by their numbers. -/
def entry (kernel : Kernel) (samples : Array (Sample Float)) (place : Nat × Nat) : Option Float :=
  match samples[place.1]?, samples[place.2]? with
  | some x, some y => kernel.value? x.features y.features
  | _, _ => none

/-- Kernel values with a memory, and draws from a stream. -/
def source (kernel : Kernel) (samples : Array (Sample Float)) :
    Smo.Source (KernelMatrix Float × Draws) Float where
  entry i j := fun (matrix, draws) =>
    match matrix.request (entry kernel samples) i j with
    | (some value, matrix) => .ok (value, (matrix, draws))
    | (none, _) => .error .outOfRange
  below bound := fun (matrix, draws) =>
    if bound = 0 then .error .emptyRange
    else
      let (n, draws) := draws.below bound
      .ok (n, (matrix, draws))

/-- The solution for samples. -/
def solve (kernel : Kernel) (settings : Settings) (samples : List (Sample Float)) (draws : Draws) :
    Result (Solution Float) :=
  match Smo.check samples with
  | some fault => .error (Error.ofLabels fault)
  | none =>
      let matrix := KernelMatrix.ofSize samples.length settings.cacheSize.toNat
      let source := source kernel samples.toArray
      match (Smo.solve source settings.limits (samples.map Sample.label)).run (matrix, draws) with
      | .ok (solution, _) => .ok solution
      | .error b => .error (.breach b)

end Search

/-! ## Trainers -/

/-- A learner with its settings and the number of its uses. -/
structure Trainer where
  settings : Settings
  kernel : Kernel
  seed : UInt64
  count : UInt64
deriving DecidableEq, Repr

namespace Trainer

/-- The class name of trainers. -/
def className : String :=
  "SVMTrainer"

/-- The trainer where nothing is given. -/
def standard : Trainer :=
  ⟨.standard, .linear, 12345, 0⟩

/-- The stream of the use that follows so many others. -/
def drawsAt (t : Trainer) (count : UInt64) : Draws :=
  let stream := (count + 1) * 0x9E3779B97F4A7C15
  .ofSeed (Draws.ofSeed (t.seed ^^^ stream)).nextPair.1

/-- The record of a trainer that was used so often. -/
def recordAt (t : Trainer) (count : UInt64) : Record :=
  .rebuildable .trainer className
    [("c", .double t.settings.penalty),
      ("epsilon", .double t.settings.tolerance),
      ("max-iterations", .long t.settings.maxSweeps.toInt64),
      ("max-passes", .long t.settings.maxPasses.toInt64),
      ("cache-size", .long t.settings.cacheSize.toInt64),
      ("seed", .long t.seed.toInt64),
      ("kernel", t.kernel.record.node)]
    [("train-invocation-count", .long count.toInt64)]

/-- The record of a trainer. -/
def record (t : Trainer) : Record :=
  t.recordAt t.count

/-- Refuse settings that are out of range. -/
def validate (t : Trainer) : Result Unit :=
  match t.settings.fault? with
  | some fault => .error (.parameter fault)
  | none => .ok ()

/-- The model that the use after so many others learns. -/
def learn (t : Trainer) (count : UInt64) (occasion : Occasion) (d : Dataset) : Result Model :=
  match Search.solve t.kernel t.settings d.samples (t.drawsAt count) with
  | .error e => .error e
  | .ok solution =>
      .ok (.ofSolution t.kernel d solution
        (.trained Model.className d.record (t.recordAt count) occasion))

/-- Use a trainer on a dataset: the model, and the trainer after the use. -/
def train (t : Trainer) (occasion : Occasion) (d : Dataset) : Result Model × Trainer :=
  match t.validate with
  | .error e => (.error e, t)
  | .ok () => (t.learn t.count occasion d, { t with count := t.count + 1 })

/-! ## Laws -/

/-- A use with valid settings raises the count by one. -/
theorem count_train {t : Trainer} (h : t.settings.fault? = none) (occasion : Occasion)
    (d : Dataset) : (t.train occasion d).2 = { t with count := t.count + 1 } := by
  simp [train, validate, h]

/-- A use with invalid settings changes nothing. -/
theorem train_of_invalid {t : Trainer} {fault : ParameterFault} (h : t.settings.fault? = some fault)
    (occasion : Occasion) (d : Dataset) :
    t.train occasion d = (.error (.parameter fault), t) := by
  simp [train, validate, h]

end Trainer
end Retrace
