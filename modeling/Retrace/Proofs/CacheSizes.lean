import Retrace.Proofs.SearchSteps

/-!
# The size of the memory does not matter

The memory of a kernel matrix answers one request from what it remembers and another by computing,
and which of the two depends on its capacity.  Two searches that differ in the capacity alone so
part ways with their memories at once.  But they go on in lockstep: both memories stay faithful to
the same kernel, whatever they have forgotten, so every request has the same answer in both
searches, the same numbers are drawn, and the same multipliers move.  This holds for any kernel, a
symmetric one or not, and also where a value is missing and both break off.

Main results:

- Theorem `Smo.remembering_simulates`: two memories of any capacities answer alike.
- Theorem `Search.solveBy_cacheSize`: two searches come to the same.
- Theorem `Trainer.train_cacheSize`: what is learned shows the capacity in its record alone.
-/

namespace Retrace

/-! ## Searching in lockstep -/

/-- Two faithful memories, whatever they hold, answer alike and keep the same draws. -/
theorem Smo.remembering_simulates {α τ : Type} [Scalar α] (entry : Nat × Nat → Option α)
    (draw : Nat → τ → Nat × τ) :
    (Source.remembering entry draw).Simulates
      (fun s t => s.1.Faithful entry ∧ t.1.Faithful entry ∧ s.2 = t.2)
      (.remembering entry draw) where
  entry i j := by
    refine ⟨?_⟩
    rintro ⟨first, draws⟩ ⟨second, _⟩ ⟨hfirst, hsecond, rfl⟩
    have hanswer : (first.request entry i j).1 = (second.request entry i j).1 :=
      (hfirst.fst_request i j).trans (hsecond.fst_request i j).symm
    have hfirst' := KernelMatrix.remembered_request i j hfirst
    have hsecond' := KernelMatrix.remembered_request i j hsecond
    rcases hx : first.request entry i j with ⟨found, first'⟩
    rcases hy : second.request entry i j with ⟨found', second'⟩
    rw [hx, hy] at hanswer
    rw [hx] at hfirst'
    rw [hy] at hsecond'
    simp only at hanswer
    subst hanswer
    cases found with
    | none => exact .inl ⟨.outOfRange, by simp [Source.remembering, hx],
        by simp [Source.remembering, hy]⟩
    | some value =>
        exact .inr ⟨value, (first', draws), (second', draws), by simp [Source.remembering, hx],
          by simp [Source.remembering, hy], hfirst', hsecond', rfl⟩
  below bound := by
    refine ⟨?_⟩
    rintro ⟨first, draws⟩ ⟨second, _⟩ ⟨hfirst, hsecond, rfl⟩
    by_cases hbound : bound = 0
    · exact .inl ⟨.emptyRange, by simp [Source.remembering, hbound],
        by simp [Source.remembering, hbound]⟩
    · exact .inr ⟨(draw bound draws).1, (first, (draw bound draws).2),
        (second, (draw bound draws).2), by simp [Source.remembering, hbound],
        by simp [Source.remembering, hbound], hfirst, hsecond, rfl⟩

/-- The same settings with another size of the memory. -/
def Settings.withCacheSize (size : UInt64) (s : Settings) : Settings :=
  { s with cacheSize := size }

namespace Search

/-- The solution for samples by any kernel, and the stream of draws that is left. -/
def solveBy (value? : SparseVector Float → SparseVector Float → Option Float) (settings : Settings)
    (samples : List (Sample Float)) (draws : Draws) : Result (Solution Float × Draws) :=
  match Smo.check samples with
  | some fault => .error (Error.ofLabels fault)
  | none =>
      let matrix := KernelMatrix.ofSize samples.length settings.cacheSize.toNat
      let source := .remembering (Smo.pairEntry value? samples.toArray) Draws.below
      match (Smo.solve source settings.limits (samples.map Sample.label)).run (matrix, draws) with
      | .ok (solution, _, left) => .ok (solution, left)
      | .error b => .error (.breach b)

/-- For the kernels that there are, this is the search of a trainer. -/
theorem solve_eq_solveBy (kernel : Kernel) (settings : Settings) (samples : List (Sample Float))
    (draws : Draws) :
    solve kernel settings samples draws =
      (solveBy kernel.value? settings samples draws).map Prod.fst := by
  rw [solve, solveBy]
  cases Smo.check samples with
  | some fault => rfl
  | none =>
      simp only [Smo.source_eq_remembering]
      cases (Smo.solve (.remembering (Smo.pairEntry kernel.value? samples.toArray) Draws.below)
        settings.limits (samples.map Sample.label)).run
          (KernelMatrix.ofSize samples.length settings.cacheSize.toNat, draws) <;> rfl

/-- Two searches that differ in the size of their memories alone come to the same. -/
theorem solveBy_cacheSize (value? : SparseVector Float → SparseVector Float → Option Float)
    (settings : Settings) (samples : List (Sample Float)) (draws : Draws) (a b : UInt64) :
    solveBy value? (settings.withCacheSize a) samples draws =
      solveBy value? (settings.withCacheSize b) samples draws := by
  rw [solveBy, solveBy]
  cases Smo.check samples with
  | some fault => rfl
  | none =>
      have hlockstep := (Smo.solve_simulates
        (Smo.remembering_simulates (Smo.pairEntry value? samples.toArray) Draws.below)
        settings.limits (samples.map Sample.label)).answers
        (KernelMatrix.ofSize samples.length a.toNat, draws)
        (KernelMatrix.ofSize samples.length b.toNat, draws)
        ⟨KernelMatrix.faithful_ofSize _ _ _, KernelMatrix.faithful_ofSize _ _ _, rfl⟩
      have hlimits : ∀ size, (settings.withCacheSize size).limits = settings.limits := fun _ => rfl
      have hsize : ∀ size, (settings.withCacheSize size).cacheSize = size := fun _ => rfl
      simp only [hlimits, hsize, StateT.run]
      obtain ⟨breach, hx, hy⟩ | ⟨solution, ⟨_, left⟩, ⟨_, left'⟩, hx, hy, -, -, hleft⟩ := hlockstep
      · rw [hx, hy]
      · simp only at hleft
        subst hleft
        rw [hx, hy]

/-- The solver solves alike with memories of any size. -/
theorem solve_cacheSize (kernel : Kernel) (settings : Settings) (samples : List (Sample Float))
    (draws : Draws) (a b : UInt64) :
    solve kernel (settings.withCacheSize a) samples draws =
      solve kernel (settings.withCacheSize b) samples draws := by
  rw [solve_eq_solveBy, solve_eq_solveBy,
    solveBy_cacheSize kernel.value? settings samples draws a b]

end Search

/-! ## Records of two trainers -/

/-- Fields in which the nodes under a key are changed. -/
def Fields.alter (key : String) (change : Node → Node) (fields : Fields) : Fields :=
  fields.map fun e => if e.1 = key then (e.1, change e.2) else e

/-- A node that is an object with the nodes under a key of its configured fields changed. -/
def Node.alterConfigured (key : String) (change : Node → Node) : Node → Node
  | .object kind className configurable configured recorded =>
      .object kind className configurable (Fields.alter key change configured) recorded
  | n => n

namespace ModelRecord

/-- The record of a model with nodes under a key of its recorded fields changed. -/
def alter (key : String) (change : Node → Node) (r : ModelRecord) : ModelRecord :=
  ⟨{ r.record with recorded := Fields.alter key change r.record.recorded }⟩

/-- The record of a model whose trainer had a memory of another size. -/
def withCacheSize (size : UInt64) (r : ModelRecord) : ModelRecord :=
  r.alter "trainer" (Node.alterConfigured "cache-size" fun _ => .long size.toInt64)

/-- The record of a model that was trained at another time. -/
def withTime (time : Instant) (r : ModelRecord) : ModelRecord :=
  r.alter "trained-at" fun _ => .text time.render

end ModelRecord

namespace Trainer

/-- The same trainer with another size of its memory. -/
def withCacheSize (size : UInt64) (t : Trainer) : Trainer :=
  { t with settings := t.settings.withCacheSize size }

@[simp] theorem validate_withCacheSize (size : UInt64) (t : Trainer) :
    (t.withCacheSize size).validate = t.validate := rfl

/-- In the record of a training the size of the memory stands in one place. -/
theorem trained_withCacheSize (t : Trainer) (d : Dataset) (count : UInt64) (occasion : Occasion)
    (time : Instant) (a b : UInt64) :
    ModelRecord.trained Model.className d.record ((t.withCacheSize b).recordAt count)
        { occasion with time := time } =
      ((ModelRecord.trained Model.className d.record ((t.withCacheSize a).recordAt count)
        occasion).withCacheSize b).withTime time := rfl

end Trainer

/-- Whether two outcomes of a training agree but for the size of the memory that is recorded of the
trainer, and the time. -/
inductive SameButCacheSize (size : UInt64) (time : Instant) : Result Model → Result Model → Prop
  | error (e : Error) : SameButCacheSize size time (.error e) (.error e)
  | ok (m : Model) :
      SameButCacheSize size time (.ok m)
        (.ok { m with record := (m.record.withCacheSize size).withTime time })

/-- Trainers that differ in the size of their memories alone learn models that differ in what is
recorded of it and of the time, and have been used equally often afterwards. -/
theorem Trainer.train_cacheSize (t : Trainer) (occasion : Occasion) (time : Instant) (d : Dataset)
    (a b : UInt64) :
    SameButCacheSize b time ((t.withCacheSize a).train occasion d).1
        ((t.withCacheSize b).train { occasion with time := time } d).1 ∧
      ((t.withCacheSize b).train { occasion with time := time } d).2 =
        ((t.withCacheSize a).train occasion d).2.withCacheSize b := by
  have hsolve := Search.solve_cacheSize t.kernel t.settings d.samples (t.drawsAt t.count) a b
  have hlearn : ∀ size other, (t.withCacheSize size).learn t.count other d =
      (Search.solve t.kernel (t.settings.withCacheSize size) d.samples (t.drawsAt t.count)).map
        fun solution => .ofSolution t.kernel d solution
          (.trained Model.className d.record ((t.withCacheSize size).recordAt t.count) other) := by
    intro size other
    have hparts : (t.withCacheSize size).kernel = t.kernel ∧
        (t.withCacheSize size).settings = t.settings.withCacheSize size ∧
        (t.withCacheSize size).drawsAt t.count = t.drawsAt t.count := ⟨rfl, rfl, rfl⟩
    rw [learn, hparts.1, hparts.2.1, hparts.2.2]
    cases Search.solve t.kernel (t.settings.withCacheSize size) d.samples (t.drawsAt t.count) <;>
      rfl
  have hcount : ∀ size, (t.withCacheSize size).count = t.count := fun _ => rfl
  rw [train, train, validate_withCacheSize, validate_withCacheSize]
  cases t.validate with
  | error e => exact ⟨.error e, rfl⟩
  | ok u =>
      refine ⟨?_, rfl⟩
      simp only [hcount, hlearn, hsolve, t.trained_withCacheSize d t.count occasion time a b]
      cases Search.solve t.kernel (t.settings.withCacheSize b) d.samples (t.drawsAt t.count) with
      | error e => exact .error e
      | ok solution => exact .ok _

/-- The size of the memory never matters: with any kernel the search comes to the same solution, or
to the same error, and leaves the same draws; and a trainer learns a model in which nothing but the
recorded size, and the recorded time, is another. -/
theorem Trainer.cacheSize_never_matters (a b : UInt64) :
    (∀ value? (settings : Settings) samples draws,
        Search.solveBy value? (settings.withCacheSize a) samples draws =
          Search.solveBy value? (settings.withCacheSize b) samples draws) ∧
      ∀ (t : Trainer) occasion time d,
        SameButCacheSize b time ((t.withCacheSize a).train occasion d).1
            ((t.withCacheSize b).train { occasion with time := time } d).1 ∧
          ((t.withCacheSize b).train { occasion with time := time } d).2 =
            ((t.withCacheSize a).train occasion d).2.withCacheSize b :=
  ⟨fun value? settings samples draws => Search.solveBy_cacheSize value? settings samples draws a b,
    fun t occasion time d => t.train_cacheSize occasion time d a b⟩

end Retrace
