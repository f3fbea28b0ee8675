import Retrace.Trainer

/-!
# Learning without a memory

The search asks for kernel values through a matrix that remembers some of them.  Whatever the
capacity of the memory, the values that are remembered were computed, so the search finds what it
would find if every value were computed whenever it is asked for.

Main results:

- Theorem `Smo.solve_simulates`: over sources that answer alike the search finds the same.
- Theorem `Search.solve_eq_solveAnew`: the memory does not matter to what is found.
- Theorem `Trainer.fst_train`: nor does it matter to the model that is learned.
-/

namespace Retrace
namespace Smo

variable {α σ τ β γ : Type}

/-- Whether two computations answer alike from states that are alike: both break off for the same
reason, or both have the same result and end in states that are alike. -/
structure Simulates (R : σ → τ → Prop) (x : Ask σ β) (y : Ask τ β) : Prop where
  answers : ∀ s t, R s t →
    (∃ b, x s = .error b ∧ y t = .error b) ∨
      ∃ value s' t', x s = .ok (value, s') ∧ y t = .ok (value, t') ∧ R s' t'

variable {R : σ → τ → Prop}

theorem simulates_pure (value : β) : Simulates R (pure value) (pure value) :=
  ⟨fun s t h => .inr ⟨value, s, t, rfl, rfl, h⟩⟩

theorem simulates_throw (b : Breach) : Simulates (β := β) R (throw b) (throw b) :=
  ⟨fun _ _ _ => .inl ⟨b, rfl, rfl⟩⟩

/-- Computations that answer alike may be followed by such computations. -/
theorem Simulates.bind {x : Ask σ β} {y : Ask τ β} {f : β → Ask σ γ} {g : β → Ask τ γ}
    (h : Simulates R x y) (hnext : ∀ value, Simulates R (f value) (g value)) :
    Simulates R (x >>= f) (y >>= g) := by
  refine ⟨fun s t hst => ?_⟩
  have hf : (x >>= f) s = x s >>= fun p => f p.1 p.2 := rfl
  have hg : (y >>= g) t = y t >>= fun p => g p.1 p.2 := rfl
  rw [hf, hg]
  obtain ⟨b, hx, hy⟩ | ⟨value, s', t', hx, hy, hst'⟩ := h.answers s t hst
  · exact .inl ⟨b, by rw [hx]; rfl, by rw [hy]; rfl⟩
  · rw [hx, hy]
    exact (hnext value).answers s' t' hst'

/-- A choice is answered alike if both ways are. -/
theorem simulates_ite {c : Prop} [Decidable c] {x x' : Ask σ β} {y y' : Ask τ β}
    (h : Simulates R x y) (h' : Simulates R x' y') :
    Simulates R (if c then x else x') (if c then y else y') := by
  split
  · exact h
  · exact h'

/-- Reading a list is answered alike. -/
theorem simulates_at' (xs : List α) (i : Nat) : Simulates R (at' xs i) (at' xs i) := by
  rw [at', at']
  cases xs[i]? with
  | none => exact simulates_throw _
  | some value => exact simulates_pure value

variable [Scalar α]

/-- Whether two sources answer alike. -/
structure Source.Simulates (R : σ → τ → Prop) (x : Source σ α) (y : Source τ α) : Prop where
  entry : ∀ i j, Smo.Simulates R (x.entry i j) (y.entry i j)
  below : ∀ bound, Smo.Simulates R (x.below bound) (y.below bound)

section

variable {x : Source σ α} {y : Source τ α} (h : x.Simulates R y)

include h

/-- Errors are shifted alike, whatever is remembered. -/
theorem shiftErrors_simulates (i j : Nat) (deltaI deltaJ deltaB : α) (k : Nat) (errors : List α) :
    Simulates R (shiftErrors x i j deltaI deltaJ deltaB k errors)
      (shiftErrors y i j deltaI deltaJ deltaB k errors) := by
  induction errors generalizing k with
  | nil => exact simulates_pure _
  | cons e rest ih =>
      exact (h.entry i k).bind fun _ => (h.entry j k).bind fun _ => (ih (k + 1)).bind fun _ =>
        simulates_pure _

theorem takeStep_simulates (penalty : α) (labels : List α) (i j : Nat) (s : State α) :
    Simulates R (takeStep x penalty labels i j s) (takeStep y penalty labels i j s) := by
  refine (simulates_at' labels i).bind fun yi => (simulates_at' labels j).bind fun yj =>
    (simulates_at' s.alpha i).bind fun ai => (simulates_at' s.alpha j).bind fun aj =>
    (simulates_at' s.errors i).bind fun ei => (simulates_at' s.errors j).bind fun ej => ?_
  refine simulates_ite (simulates_pure _) ?_
  refine (h.entry i i).bind fun kii => (h.entry i j).bind fun kij =>
    (h.entry j j).bind fun kjj => ?_
  refine simulates_ite (simulates_pure _) ?_
  split
  · exact simulates_throw _
  · refine simulates_ite (simulates_pure _) ?_
    exact (shiftErrors_simulates h ..).bind fun _ => simulates_pure _

theorem visit_simulates (limits : SearchLimits α) (labels : List α) (i : Nat) (s : State α) :
    Simulates R (visit x limits labels i s) (visit y limits labels i s) := by
  refine (simulates_at' labels i).bind fun yi => (simulates_at' s.alpha i).bind fun ai =>
    (simulates_at' s.errors i).bind fun ei => ?_
  refine simulates_ite ?_ (simulates_pure _)
  refine Simulates.bind ?_ fun j => takeStep_simulates h ..
  exact (h.below _).bind fun j => simulates_pure _

theorem sweepFrom_simulates (limits : SearchLimits α) (labels : List α) (i steps : Nat)
    (s : State α) (moved : Bool) :
    Simulates R (sweepFrom x limits labels i steps s moved)
      (sweepFrom y limits labels i steps s moved) := by
  induction steps generalizing i s moved with
  | zero => exact simulates_pure _
  | succ steps ih => exact (visit_simulates h limits labels i s).bind fun _ => ih ..

theorem search_simulates (limits : SearchLimits α) (labels : List α) (sweeps : Nat) (s : State α)
    (passes done : Nat) :
    Simulates R (search x limits labels sweeps s passes done)
      (search y limits labels sweeps s passes done) := by
  induction sweeps generalizing s passes done with
  | zero => exact simulates_pure _
  | succ sweeps ih =>
      rw [search, search]
      exact simulates_ite ((sweepFrom_simulates h ..).bind fun _ => ih ..) (simulates_pure _)

/-- Over sources that answer alike the search finds the same. -/
theorem solve_simulates (limits : SearchLimits α) (labels : List α) :
    Simulates R (solve x limits labels) (solve y limits labels) :=
  (search_simulates h ..).bind fun _ => simulates_pure _

end

end Smo

namespace KernelMatrix

variable {α : Type}

/-- Whether every value that is remembered is the one that is computed. -/
def Faithful (entry : Nat × Nat → Option α) (m : KernelMatrix α) : Prop :=
  ∀ p value, m.find? p = some value → entry p = some value

/-- An empty memory remembers nothing wrong. -/
theorem faithful_ofSize (entry : Nat × Nat → Option α) (size capacity : Nat) :
    (ofSize size capacity).Faithful entry := by
  intro p value h
  simp [find?, ofSize] at h

/-- A request is answered with the value that is computed. -/
theorem Faithful.fst_request {entry : Nat × Nat → Option α} {m : KernelMatrix α}
    (h : m.Faithful entry) (i j : Nat) : (m.request entry i j).1 = entry (place i j) := by
  simp only [request]
  split
  · rename_i value number hp
    exact (h _ _ (by simp [find?, hp])).symm
  · split
    · rename_i value hvalue
      exact hvalue.symm
    · rename_i hnone
      exact hnone.symm

end KernelMatrix

namespace Search

/-- Kernel values that are computed whenever they are asked for, and draws from a stream. -/
def sourceAnew (kernel : Kernel) (samples : Array (Sample Float)) : Smo.Source Draws Float where
  entry i j := fun draws =>
    match entry kernel samples (KernelMatrix.place i j) with
    | some value => .ok (value, draws)
    | none => .error .outOfRange
  below bound := fun draws =>
    if bound = 0 then .error .emptyRange else .ok (draws.below bound)

/-- The solution for samples, found without a memory. -/
def solveAnew (kernel : Kernel) (settings : Settings) (samples : List (Sample Float))
    (draws : Draws) : Result (Solution Float) :=
  match Smo.check samples with
  | some fault => .error (Error.ofLabels fault)
  | none =>
      let source := sourceAnew kernel samples.toArray
      match (Smo.solve source settings.limits (samples.map Sample.label)).run draws with
      | .ok (solution, _) => .ok solution
      | .error b => .error (.breach b)

/-- A source with a faithful memory answers like one without. -/
theorem source_simulates (kernel : Kernel) (samples : Array (Sample Float)) :
    (source kernel samples).Simulates
      (fun s draws => s.1.Faithful (entry kernel samples) ∧ s.2 = draws)
      (sourceAnew kernel samples) where
  entry i j := by
    refine ⟨?_⟩
    rintro ⟨matrix, draws⟩ _ ⟨hfaithful, rfl⟩
    have hvalue := hfaithful.fst_request i j
    have hkeeps := KernelMatrix.remembered_request i j hfaithful
    rcases hrequest : matrix.request (entry kernel samples) i j with ⟨found, after⟩
    rw [hrequest] at hvalue hkeeps
    cases found with
    | none => exact .inl ⟨.outOfRange, by simp [source, hrequest], by simp [sourceAnew, ← hvalue]⟩
    | some value =>
        exact .inr ⟨value, (after, draws), draws, by simp [source, hrequest],
          by simp [sourceAnew, ← hvalue], hkeeps, rfl⟩
  below bound := by
    refine ⟨?_⟩
    rintro ⟨matrix, draws⟩ _ ⟨hfaithful, rfl⟩
    by_cases hbound : bound = 0
    · exact .inl ⟨.emptyRange, by simp [source, hbound], by simp [sourceAnew, hbound]⟩
    · exact .inr ⟨(draws.below bound).1, (matrix, (draws.below bound).2), (draws.below bound).2,
        by simp [source, hbound], by simp [sourceAnew, hbound], hfaithful, rfl⟩

/-- The memory does not matter to what is found. -/
theorem solve_eq_solveAnew (kernel : Kernel) (settings : Settings) (samples : List (Sample Float))
    (draws : Draws) :
    solve kernel settings samples draws = solveAnew kernel settings samples draws := by
  rw [solve, solveAnew]
  cases Smo.check samples with
  | some fault => rfl
  | none =>
      obtain ⟨b, hx, hy⟩ | ⟨solution, s', t', hx, hy, -⟩ :=
        (Smo.solve_simulates (source_simulates kernel samples.toArray) settings.limits
          (samples.map Sample.label)).answers
          (KernelMatrix.ofSize samples.length settings.cacheSize.toNat, draws) draws
          ⟨KernelMatrix.faithful_ofSize _ _ _, rfl⟩
      · simp only [StateT.run, hx, hy]
      · simp only [StateT.run, hx, hy]

end Search

/-- The memory does not matter to the model that is learned. -/
theorem Trainer.fst_train (t : Trainer) (occasion : Occasion) (d : Dataset) :
    (t.train occasion d).1 =
      match t.validate with
      | .error e => .error e
      | .ok () =>
          (Search.solveAnew t.kernel t.settings d.samples (t.drawsAt t.count)).map fun solution =>
            .ofSolution t.kernel d solution
              (.trained Model.className d.record (t.recordAt t.count) occasion) := by
  rw [train]
  cases t.validate with
  | error e => rfl
  | ok u =>
      simp only [learn, Search.solve_eq_solveAnew]
      cases Search.solveAnew t.kernel t.settings d.samples (t.drawsAt t.count) with
      | error e => rfl
      | ok solution => rfl

end Retrace
