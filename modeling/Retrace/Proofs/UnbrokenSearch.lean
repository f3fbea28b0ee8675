import Retrace.Proofs.DoubleOrder
import Retrace.Proofs.PassedEntries
import Retrace.Proofs.RecentRequests
import Retrace.Proofs.SearchSteps

/-!
# Searches over doubles do not break off

A search is run with whatever settings it is given, and feature values may be anything that a double
can be.  It would break off where it draws a number below zero, asks for a sample beyond the last
one, or brings a multiplier between bounds that are not in order.  None of this happens.  There are
two samples at least, so another one can be drawn; every vector has the values that its indices
promise; and the bounds of a step are numbers if the penalty is one, whatever the multipliers are.
If the penalty is no number then no sample violates its condition as long as all multipliers are
zero, and so they stay zero.

Main results:

- Theorem `Smo.le_or_le_bounds`: the bounds of a step leave no room or are in order.
- Theorem `Smo.keptByVisits_steppable`: every visit of a sample comes to a result.
- Theorem `Smo.ensures_solveHistory_length`: the sweeps of a solution are those that were done.
- Theorem `Search.solve_unbroken`: a search ends with a solution, or it refuses the labels.
-/

namespace Retrace

/-! ## Kernel values -/

/-- A kernel has a value for any vectors that have a value for every index. -/
theorem Kernel.exists_value? (k : Kernel) {x y : SparseVector Float} (hx : x.WellFormed)
    (hy : y.WellFormed) : ∃ v, k.value? x y = some v := by
  rw [← Option.ne_none_iff_exists', ne_eq, value?_eq_none_iff hy.1.le, not_and, not_lt]
  intro _
  rw [← hx.1]
  exact SparseVector.passed_le x.indices y.indices

namespace Smo

variable {α σ τ : Type}

/-! ## The bounds of a step -/

/-- The bounds of a step leave no room or are in order if the penalty is a number; the multipliers
may be anything. -/
theorem le_or_le_bounds {penalty : Float} (hpenalty : penalty.isNaN = false)
    (yi yj ai aj : Float) :
    (bounds penalty yi yj ai aj).2 ≤ (bounds penalty yi yj ai aj).1 ∨
      (bounds penalty yi yj ai aj).1 ≤ (bounds penalty yi yj ai aj).2 := by
  have hzero : (0 : Float).isNaN = false := by decide
  apply Double.le_total
  · unfold bounds
    split
    · exact Double.isNaN_smaller hpenalty _
    · exact Double.isNaN_smaller hpenalty _
  · unfold bounds
    split
    · exact Double.isNaN_larger hzero _
    · exact Double.isNaN_larger hzero _

/-- Without a number for the penalty, a sample with multiplier zero never violates its condition. -/
theorem violates_eq_false {limits : SearchLimits Float} (hpenalty : limits.penalty.isNaN = true)
    (label error : Float) : violates limits label error 0 = false := by
  have hbelow : ¬(0 : Float) < limits.penalty := by
    intro h
    rw [(Double.isNaN_of_le (Double.le_of_lt h)).2] at hpenalty
    exact Bool.noConfusion hpenalty
  have hzero : ¬(0 : Float) < 0 := by decide
  unfold violates
  simp only [decide_eq_false hbelow, decide_eq_false hzero, Bool.and_false, Bool.or_false]

/-- A number can be brought between bounds that are in order. -/
theorem exists_clamp?_of_le [Scalar α] {low high : α} (h : low ≤ high) (x : α) :
    ∃ y, Scalar.clamp? low high x = some y :=
  ⟨_, if_pos h⟩

/-- A step on two samples comes to a result if its bounds leave no room or are in order. -/
theorem delivers_takeStep_of_bounds [Scalar α] {holds : σ → Prop} {source : Source σ α}
    {value : Nat → Nat → α} {labels : List α} (h : source.Answers holds value labels.length)
    {s : State α} (hs : s.Fits labels) {i j : Nat} (p : Pair labels s i j)
    (hi : i < labels.length) (hj : j < labels.length) {penalty : α}
    (hbounds : (bounds penalty p.yi p.yj p.ai p.aj).2 ≤ (bounds penalty p.yi p.yj p.ai p.aj).1 ∨
      (bounds penalty p.yi p.yj p.ai p.aj).1 ≤ (bounds penalty p.yi p.yj p.ai p.aj).2) :
    Delivers holds (fun r => r.1.Fits labels) (takeStep source penalty labels i j s) := by
  unfold takeStep
  apply (delivers_at' p.label_i).bind_eq
  apply (delivers_at' p.label_j).bind_eq
  apply (delivers_at' p.alpha_i).bind_eq
  apply (delivers_at' p.alpha_j).bind_eq
  apply (delivers_at' p.error_i).bind_eq
  apply (delivers_at' p.error_j).bind_eq
  rcases hpair : bounds penalty p.yi p.yj p.ai p.aj with ⟨low, high⟩
  rw [hpair] at hbounds
  simp only
  split
  · exact delivers_pure hs
  · rename_i hroom
    apply (h.entry i i hi hi).bind_eq
    apply (h.entry i j hi hj).bind_eq
    apply (h.entry j j hj hj).bind_eq
    split
    · exact delivers_pure hs
    · obtain ⟨target, htarget⟩ := exists_clamp?_of_le (hbounds.resolve_left hroom)
        (p.aj - p.yj * (p.ei - p.ej) / ((1 + 1) * value i j - value i i - value j j))
      rw [htarget]
      simp only
      split
      · exact delivers_pure hs
      · have hsize : 0 + s.errors.length ≤ labels.length := by
          rw [Nat.zero_add]
          exact hs.errors.le
        apply (delivers_shiftErrors h hi hj _ _ _ hsize).bind_eq
        apply delivers_pure
        constructor
        · simp only [List.length_set, hs.alpha]
        · simp only [List.length_mapIdx, hs.errors]

/-! ## States from which every step can be made -/

/-- Whether a state fits and its multipliers are zero if the penalty is no number.  A step can be
made from it on any two samples of which the first one violates its condition. -/
structure State.Steppable (limits : SearchLimits Float) (labels : List Float) (s : State Float) :
    Prop where
  fits : s.Fits labels
  still : limits.penalty.isNaN = false ∨ ∀ a ∈ s.alpha, a = 0

section

variable {limits : SearchLimits Float} {labels : List Float} {s : State Float}

theorem State.steppable_initial : (State.initial labels).Steppable limits labels := by
  refine ⟨State.fits_initial labels, .inr ?_⟩
  intro a ha
  obtain ⟨y, -, rfl⟩ := List.mem_map.1 ha
  rfl

/-- A sample can violate its condition only if the penalty is a number. -/
theorem State.Steppable.isNaN_penalty (hs : s.Steppable limits labels) {i j : Nat}
    (p : Pair labels s i j) (hviolates : violates limits p.yi p.ei p.ai = true) :
    limits.penalty.isNaN = false := by
  by_contra hpenalty
  rw [Bool.not_eq_false] at hpenalty
  rcases hs.still with hnumber | hzero
  · rw [hnumber] at hpenalty
    exact Bool.noConfusion hpenalty
  · rw [hzero p.ai (List.mem_of_getElem? p.alpha_i), violates_eq_false hpenalty] at hviolates
    exact Bool.noConfusion hviolates

/-- So the bounds of its step leave no room or are in order. -/
theorem State.Steppable.bounds (hs : s.Steppable limits labels) {i j : Nat}
    (p : Pair labels s i j) (hviolates : violates limits p.yi p.ei p.ai = true) :
    (Smo.bounds limits.penalty p.yi p.yj p.ai p.aj).2 ≤
        (Smo.bounds limits.penalty p.yi p.yj p.ai p.aj).1 ∨
      (Smo.bounds limits.penalty p.yi p.yj p.ai p.aj).1 ≤
        (Smo.bounds limits.penalty p.yi p.yj p.ai p.aj).2 :=
  le_or_le_bounds (hs.isNaN_penalty p hviolates) p.yi p.yj p.ai p.aj

/-- Every visit of a sample comes to a result, and every step can be made afterwards too. -/
theorem keptByVisits_steppable (limits : SearchLimits Float) {holds : σ → Prop}
    {source : Source σ Float} {value : Nat → Nat → Float}
    (h : source.Answers holds value labels.length) (hlabels : 2 ≤ labels.length) :
    KeptByVisits holds source limits labels (State.Steppable limits labels) := by
  intro s i hi hs
  apply delivers_visit h hlabels hi hs.fits hs
  intro j p hj hviolates
  apply (delivers_takeStep_of_bounds h hs.fits p hi hj (hs.bounds p hviolates)).mono
  intro r hr
  exact ⟨hr, .inl (hs.isNaN_penalty p hviolates)⟩

end

/-! ## The number of sweeps -/

section

variable [Scalar α] (source : Source σ α) (limits : SearchLimits α) (labels : List α)

/-- A sweep makes one state for each of its steps. -/
theorem ensures_sweepHistory_length (i steps : Nat) (s : State α) (moved : Bool) :
    Ensures (fun r => r.2.length = steps) (sweepHistory source limits labels i steps s moved) := by
  induction steps generalizing i s moved with
  | zero => exact ensures_pure rfl
  | succ steps ih =>
      apply Ensures.after
      intro r
      apply (ih (i + 1) r.1 (moved || r.2)).bind
      intro t ht
      apply ensures_pure
      rw [List.length_cons, ht]

/-- A search makes at most as many sweeps as are left, each over all labels. -/
theorem ensures_searchHistory_length (sweeps : Nat) (s : State α) (passes done : Nat) :
    Ensures (fun r => ∃ more, r.1.2 = done + more ∧ more ≤ sweeps ∧
        r.2.length = more * labels.length)
      (searchHistory source limits labels sweeps s passes done) := by
  induction sweeps generalizing s passes done with
  | zero => exact ensures_pure ⟨0, rfl, le_rfl, by simp⟩
  | succ sweeps ih =>
      unfold searchHistory
      apply ensures_ite
      · apply (ensures_sweepHistory_length source limits labels 0 labels.length s false).bind
        intro r hr
        apply (ih r.1.1 _ (done + 1)).bind
        rintro t ⟨more, hdone, hmore, hlength⟩
        apply ensures_pure
        refine ⟨more + 1, ?_, Nat.succ_le_succ hmore, ?_⟩
        · rw [hdone, Nat.add_assoc, Nat.add_comm 1]
        · rw [List.length_append, hr, hlength, Nat.succ_mul, Nat.add_comm]
      · exact ensures_pure ⟨0, rfl, Nat.zero_le _, by simp⟩

/-- The sweeps of a solution are those that were done, each of them with a visit of every sample,
and they are not more than the limit. -/
theorem ensures_solveHistory_length :
    Ensures (fun r => r.1.sweeps ≤ limits.maxSweeps ∧
        r.2.length = r.1.sweeps * labels.length + 1)
      (solveHistory source limits labels) := by
  apply (ensures_searchHistory_length source limits labels limits.maxSweeps (.initial labels)
    0 0).bind
  rintro r ⟨more, hdone, hmore, hlength⟩
  rw [Nat.zero_add] at hdone
  apply ensures_pure
  rw [hdone, List.length_cons, hlength]
  exact ⟨hmore, rfl⟩

end

end Smo

/-! ## Searches of a trainer -/

namespace Search

open Smo

variable {τ : Type}

/-- The solution for samples, with draws by `draw` from a state of their own. -/
def solveDrawing (draw : Nat → τ → Nat × τ) (kernel : Kernel) (settings : Settings)
    (samples : List (Sample Float)) (draws : τ) : Result (Solution Float) :=
  match check samples with
  | some fault => .error (Error.ofLabels fault)
  | none =>
      let matrix := KernelMatrix.ofSize samples.length settings.cacheSize.toNat
      let source := .remembering (pairEntry kernel.value? samples.toArray) draw
      match (Smo.solve source settings.limits (samples.map Sample.label)).run (matrix, draws) with
      | .ok (solution, _) => .ok solution
      | .error b => .error (.breach b)

/-- The solver draws numbers below a bound. -/
theorem solve_eq_solveDrawing (kernel : Kernel) (settings : Settings)
    (samples : List (Sample Float)) (draws : Draws) :
    solve kernel settings samples draws =
      solveDrawing Draws.below kernel settings samples draws := by
  rw [solve, solveDrawing]
  cases check samples with
  | some fault => rfl
  | none =>
      simp only [source_eq_remembering]
      cases (Smo.solve (.remembering (pairEntry kernel.value? samples.toArray) Draws.below)
        settings.limits (samples.map Sample.label)).run
          (KernelMatrix.ofSize samples.length settings.cacheSize.toNat, draws) <;> rfl

/-- How a search may end: with a solution after so many sweeps at most, or with labels that cannot
be learned from. -/
inductive Ends (maxSweeps : Nat) : Result (Solution Float) → Prop
  | solved {solution : Solution Float} (h : solution.sweeps ≤ maxSweeps) :
      Ends maxSweeps (.ok solution)
  | noSamples : Ends maxSweeps (.error .emptyDataset)
  | label (found : Float) : Ends maxSweeps (.error (.label found))
  | oneClass : Ends maxSweeps (.error .oneClass)

theorem ends_ofLabels (maxSweeps : Nat) (fault : LabelFault Float) :
    Ends maxSweeps (.error (Error.ofLabels fault)) := by
  cases fault with
  | noSamples => exact .noSamples
  | label found => exact .label found
  | oneClass => exact .oneClass

section

variable {samples : List (Sample Float)} {draw : Nat → τ → Nat × τ}

/-- A memory answers every request for samples whose vectors have a value for every index. -/
theorem answers_of_wellFormed (hfeatures : ∀ x ∈ samples, x.features.WellFormed)
    (kernel : Kernel) (hdraw : ∀ bound draws, 0 < bound → (draw bound draws).1 < bound) :
    let entry := pairEntry kernel.value? samples.toArray
    ∃ value, (Source.remembering entry draw).Answers (fun s => s.1.Faithful entry) value
      (samples.map Sample.label).length := by
  intro entry
  refine ⟨fun i j => (entry (KernelMatrix.place i j)).getD 0, ?_⟩
  apply answers_remembering_place _ hdraw
  intro i j hi hj
  rw [List.length_map] at hi hj
  let value := fun u v => (kernel.value? u v).getD 0
  have hvalue : ∀ x ∈ samples.toArray, ∀ y ∈ samples.toArray,
      kernel.value? x.features y.features = some (value x.features y.features) := by
    intro x hx y hy
    obtain ⟨v, hv⟩ := kernel.exists_value? (hfeatures x (List.mem_toArray.1 hx))
      (hfeatures y (List.mem_toArray.1 hy))
    simp only [value, hv, Option.getD_some]
  obtain ⟨x, y, -, -, hentry⟩ :=
    @KernelMatrix.exists_pairEntry _ samples.toArray _ value hvalue i j hi hj
  simp only [entry, hentry, Option.getD_some]

/-- A search for accepted samples runs to its end, and a step can be made from every state that it
passes through. -/
theorem exists_run_of_check (hcheck : check samples = none)
    (hfeatures : ∀ x ∈ samples, x.features.WellFormed) (kernel : Kernel) (settings : Settings)
    (hdraw : ∀ bound draws, 0 < bound → (draw bound draws).1 < bound) (draws : τ) :
    let source := Source.remembering (pairEntry kernel.value? samples.toArray) draw
    let first := (KernelMatrix.ofSize samples.length settings.cacheSize.toNat, draws)
    ∃ solution history after,
      (Smo.solve source settings.limits (samples.map Sample.label)).run first =
        .ok (solution, after) ∧
      (solveHistory source settings.limits (samples.map Sample.label)).run first =
        .ok ((solution, history), after) ∧
      solution.sweeps ≤ settings.maxSweeps.toNat ∧
      history.length = solution.sweeps * samples.length + 1 ∧
      ∀ s ∈ history, s.Steppable settings.limits (samples.map Sample.label) := by
  intro source first
  obtain ⟨value, hanswers⟩ := answers_of_wellFormed hfeatures kernel hdraw
  have hlabels : 2 ≤ (samples.map Sample.label).length := by
    rw [List.length_map]
    exact two_le_length_of_check hcheck
  have hdelivers := delivers_solveHistory
    (keptByVisits_steppable settings.limits hanswers hlabels) State.steppable_initial
  obtain ⟨⟨solution, history⟩, after, hrun, -, hkeeps⟩ :=
    hdelivers.exists_run first (KernelMatrix.faithful_ofSize _ _ _)
  obtain ⟨hsweeps, hlength⟩ := (ensures_solveHistory_length ..).of_run _ _ _ hrun
  rw [List.length_map] at hlength
  exact ⟨solution, history, after, run_solve_of_history _ _ _ hrun, hrun, hsweeps, hlength, hkeeps⟩

/-- A search ends with a solution, or it refuses the labels. -/
theorem ends_solveDrawing (hfeatures : ∀ x ∈ samples, x.features.WellFormed) (kernel : Kernel)
    (settings : Settings)
    (hdraw : ∀ bound draws, 0 < bound → (draw bound draws).1 < bound) (draws : τ) :
    Ends settings.maxSweeps.toNat (solveDrawing draw kernel settings samples draws) := by
  unfold solveDrawing
  cases hcheck : check samples with
  | some fault => exact ends_ofLabels _ fault
  | none =>
      obtain ⟨solution, history, after, hrun, -, hsweeps, -⟩ :=
        exists_run_of_check hcheck hfeatures kernel settings hdraw draws
      simp only [hrun]
      exact .solved hsweeps

/-- For samples whose vectors are built from lists, with any labels and any values, any kernel, any
settings and any way to draw numbers below a bound, a search ends with a solution after at most as
many sweeps as it may do, or with labels that cannot be learned from.  If the labels are accepted
then there is always another sample to be drawn, every kernel value is there, and in all states that
the search passes through the bounds of a step that leave room are in order, so that both of them
are numbers. -/
theorem solve_unbroken
    (hbuilt : ∀ x ∈ samples, ∃ indices values,
      SparseVector.ofLists? indices values = some x.features)
    (kernel : Kernel) (settings : Settings)
    (hdraw : ∀ bound draws, 0 < bound → (draw bound draws).1 < bound) (draws : τ) :
    (∀ words, Ends settings.maxSweeps.toNat (solve kernel settings samples words)) ∧
    Ends settings.maxSweeps.toNat (solveDrawing draw kernel settings samples draws) ∧
    (check samples = none →
      let entry := pairEntry kernel.value? samples.toArray
      let source := Source.remembering entry draw
      let labels := samples.map Sample.label
      0 < samples.length - 1 ∧
      (∀ i < samples.length, Delivers (fun s => s.1.Faithful entry)
        (fun j => j < samples.length ∧ i ≠ j) (drawOther source samples.length i)) ∧
      (∀ i < samples.length, ∀ j < samples.length,
        Delivers (fun s => s.1.Faithful entry) (fun _ => True) (source.entry i j)) ∧
      ∃ solution history after,
        solveDrawing draw kernel settings samples draws = .ok solution ∧
        (solveHistory source settings.limits labels).run
            (.ofSize samples.length settings.cacheSize.toNat, draws) =
          .ok ((solution, history), after) ∧
        history.length = solution.sweeps * samples.length + 1 ∧
        ∀ s ∈ history, ∀ i j, ∀ p : Pair labels s i j,
          violates settings.limits p.yi p.ei p.ai = true →
          let (low, high) := bounds settings.penalty p.yi p.yj p.ai p.aj
          ¬high ≤ low → low ≤ high) := by
  have hfeatures : ∀ x ∈ samples, x.features.WellFormed := by
    intro x hx
    obtain ⟨indices, values, hvector⟩ := hbuilt x hx
    exact SparseVector.wellFormed_of_ofLists? hvector
  refine ⟨?_, ends_solveDrawing hfeatures kernel settings hdraw draws, ?_⟩
  · intro words
    rw [solve_eq_solveDrawing]
    exact ends_solveDrawing hfeatures kernel settings (fun _ d h => Draws.below_lt h d) words
  · intro hcheck entry source labels
    have htwo := two_le_length_of_check hcheck
    -- vectors that were built from lists have all their kernel values
    obtain ⟨value, hanswers⟩ := answers_of_wellFormed hfeatures kernel hdraw
    rw [List.length_map] at hanswers
    refine ⟨by omega, fun i hi => delivers_drawOther hanswers hi htwo, ?_, ?_⟩
    · intro i hi j hj
      exact (hanswers.entry i j hi hj).mono fun _ _ => trivial
    · obtain ⟨solution, history, after, hrun, hhistory, -, hlength, hsteps⟩ :=
        exists_run_of_check hcheck hfeatures kernel settings hdraw draws
      refine ⟨solution, history, after, ?_, hhistory, hlength, ?_⟩
      · simp only [solveDrawing, hcheck, hrun]
      · intro s hs i j p hviolates
        exact ((hsteps s hs).bounds p hviolates).resolve_left

end

/-- Two samples with a value that is no number and one that is infinite. -/
def unruly : List (Sample Float) :=
  [⟨⟨[0], [0 / 0]⟩, 1⟩, ⟨⟨[0], [1 / 0]⟩, -1⟩]

/-- Settings without a bound for the multipliers, with a tolerance that every sample exceeds. -/
def boundless : Settings :=
  ⟨1 / 0, -2, 3, 2, 0⟩

/-- A search on the two samples ends with a solution. -/
theorem solve_unbroken_unruly :
    (∀ x ∈ unruly, ∃ indices values, SparseVector.ofLists? indices values = some x.features) ∧
      (∀ bound d, 0 < bound → (Draws.below bound d).1 < bound) ∧ check unruly = none ∧
      ∃ solution, solve .linear boundless unruly (.ofSeed 7) = .ok solution ∧
        solution.sweeps ≤ 3 := by
  have hbuilt : ∀ x ∈ unruly, ∃ indices values,
      SparseVector.ofLists? indices values = some x.features := by
    intro x hx
    refine ⟨x.features.indices, x.features.values, ?_⟩
    rcases List.mem_pair.1 hx with rfl | rfl <;>
      simp [SparseVector.ofLists?, SparseVector.ofEntries]
  have hdraw : ∀ bound d, 0 < bound → (Draws.below bound d).1 < bound :=
    fun _ d h => Draws.below_lt h d
  have hcheck : check unruly = none := by decide +kernel
  obtain ⟨hends, -, hruns⟩ := solve_unbroken hbuilt .linear boundless hdraw (.ofSeed 7)
  obtain ⟨-, -, -, solution, history, after, hsolution, -⟩ := hruns hcheck
  rw [← solve_eq_solveDrawing] at hsolution
  have hend := hends (.ofSeed 7)
  rw [hsolution] at hend
  cases hend with
  | solved hsweeps => exact ⟨hbuilt, hdraw, hcheck, solution, hsolution, hsweeps⟩

end Search
end Retrace
