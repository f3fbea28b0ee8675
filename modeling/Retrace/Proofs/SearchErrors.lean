import Mathlib.Algebra.BigOperators.Group.List.Lemmas
import Retrace.Proofs.FeasibleSearch

/-!
# The errors of a search are those of its model

A search does not compute decisions.  It keeps, for every sample, how far the decision misses the
label, and adds to these errors what each move changes.  Over exact numbers nothing gets lost that
way: after every step each error is the one of the decision by all samples, with the multipliers and
the bias of that step.  The model that is made in the end keeps only samples with positive
multipliers; the others do not weigh, because multipliers are never negative, so the model decides
as the last step does.

Main results:

- Theorem `errorsExact_moved`: a move changes the errors as it changes the decisions.
- Theorem `decisionOn?_eq_decisionOfAll`: samples that the model leaves out do not weigh.
- Theorem `errors_exact_throughout`: the errors of every state are exact, and those of the last one
  are the errors of the model.
-/

namespace Retrace

/-! ## Decisions by support vectors -/

namespace Model

/-- The decision on a vector by the support vectors of a solution on samples. -/
def decisionOn? {α : Type} [Scalar α] (value? : SparseVector α → SparseVector α → Option α)
    (samples : List (Sample α)) (solution : Solution α) (v : SparseVector α) : Option α :=
  weigh? (fun support => value? support v) (supportEntries samples solution) solution.bias

/-- A model that a solution makes decides by the support vectors of the solution. -/
theorem decision?_ofSolution (kernel : Kernel) (d : Dataset) (solution : Solution Float)
    (record : ModelRecord) (v : SparseVector Float) :
    (ofSolution kernel d solution record).decision? v =
      decisionOn? kernel.value? d.samples solution v := by
  unfold decision? decisionOn? ofSolution
  rw [← List.unzip_fst, ← List.unzip_snd, List.zip_unzip]

/-- All support vectors have terms if the kernel has all values. -/
theorem terms?_some {α : Type} [Scalar α] (value : SparseVector α → α)
    (entries : List (SparseVector α × α)) :
    terms? (fun support => some (value support)) entries =
      some (entries.map fun e => e.2 * value e.1) := by
  induction entries with
  | nil => rfl
  | cons e rest ih => simp only [terms?, ih, List.map_cons]

end Model

namespace Smo

variable {τ : Type} {kernel : SparseVector ℚ → SparseVector ℚ → ℚ} {samples : List (Sample ℚ)}

/-- The decision on a vector by all samples with their multipliers. -/
def decisionOfAll (kernel : SparseVector ℚ → SparseVector ℚ → ℚ) (samples : List (Sample ℚ))
    (alpha : List ℚ) (bias : ℚ) (v : SparseVector ℚ) : ℚ :=
  (List.zipWith (fun a x => a * x.label * kernel x.features v) alpha samples).sum + bias

/-- Whether each error of a state is the decision on the sample less its label. -/
def ErrorsExact (kernel : SparseVector ℚ → SparseVector ℚ → ℚ) (samples : List (Sample ℚ))
    (s : State ℚ) : Prop :=
  ∀ (k : ℕ) (x : Sample ℚ), samples[k]? = some x →
    s.errors[k]? = some (decisionOfAll kernel samples s.alpha s.bias x.features - x.label)

/-! ## Kernel values of samples -/

/-- The kernel value of two samples by their numbers, zero beyond the samples. -/
def gram (kernel : SparseVector ℚ → SparseVector ℚ → ℚ) (samples : List (Sample ℚ)) (i j : ℕ) : ℚ :=
  (pairEntry (fun x y => some (kernel x y)) samples.toArray (i, j)).getD 0

/-- The kernel value of two places is that of the samples there. -/
theorem gram_eq {i j : ℕ} {x y : Sample ℚ} (hx : samples[i]? = some x) (hy : samples[j]? = some y) :
    gram kernel samples i j = kernel x.features y.features := by
  simp [gram, pairEntry, hx, hy]

theorem pairEntry_eq_gram {i j : ℕ} (hi : i < samples.length) (hj : j < samples.length) :
    pairEntry (fun x y => some (kernel x y)) samples.toArray (i, j) =
      some (gram kernel samples i j) := by
  simp [gram, pairEntry, hi, hj]

/-- The kernel values of two places are the same in either order. -/
theorem gram_comm (hsymm : ∀ x y, kernel x y = kernel y x) {i j : ℕ} (hi : i < samples.length)
    (hj : j < samples.length) : gram kernel samples i j = gram kernel samples j i := by
  have hx := List.getElem?_eq_getElem hi
  have hy := List.getElem?_eq_getElem hj
  rw [gram_eq hx hy, gram_eq hy hx, hsymm]

/-! ## Errors -/

theorem errorsExact_initial : ErrorsExact kernel samples (.initial (samples.map Sample.label)) := by
  intro k x hx
  have hzero : (List.zipWith (fun a y => a * y.label * kernel y.features x.features)
      (State.initial (samples.map Sample.label)).alpha samples).sum = 0 := by
    unfold State.initial
    clear hx
    induction samples with
    | nil => rfl
    | cons y rest ih =>
        simp only [List.map_cons, List.zipWith_cons_cons, List.sum_cons, zero_mul, zero_add]
        exact ih
  rw [decisionOfAll, hzero]
  simp [State.initial, hx]

/-- A move changes the errors as it changes the decisions. -/
theorem errorsExact_moved {s : State ℚ} {i j : ℕ} (p : Pair (samples.map Sample.label) s i j)
    (hs : ErrorsExact kernel samples s) (penalty target : ℚ) :
    ErrorsExact kernel samples (p.moved (gram kernel samples) penalty target) := by
  intro k x hx
  have hi := p.label_i
  have hj := p.label_j
  rw [List.getElem?_map, Option.map_eq_some_iff] at hi hj
  obtain ⟨xi, hxi, hyi⟩ := hi
  obtain ⟨xj, hxj, hyj⟩ := hj
  have herror : (p.moved (gram kernel samples) penalty target).errors[k]? =
      some (decisionOfAll kernel samples s.alpha s.bias x.features - x.label +
        (p.deltaI target * kernel xi.features x.features +
          p.deltaJ target * kernel xj.features x.features +
          (p.bias (gram kernel samples) penalty target - s.bias))) := by
    rw [Pair.moved, List.getElem?_mapIdx, hs k x hx, Option.map_some, gram_eq hxi hx,
      gram_eq hxj hx]
  rw [herror, decisionOfAll, decisionOfAll, p.sum_zipWith_moved _ hxi hxj, hyi, hyj,
    Option.some.injEq]
  have hbias : (p.moved (gram kernel samples) penalty target).bias =
      p.bias (gram kernel samples) penalty target := rfl
  rw [hbias, Pair.deltaI, Pair.deltaJ]
  ring

/-! ## Samples that are left out -/

theorem total_eq_sum (values : List ℚ) : Scalar.total values = values.sum := by
  rw [Scalar.total, neg_zero, List.sum_eq_foldl]

/-- What a list has at the positions of a filter is found by going through the list. -/
theorem filterMap_range_getElem? {α β : Type} (f : α → Option β) (xs : List α) :
    ((List.range xs.length).filterMap fun i => xs[i]?.bind f) = xs.filterMap f := by
  induction xs with
  | nil => rfl
  | cons x xs ih =>
      rw [List.length_cons, List.range_succ_eq_map, List.filterMap_cons, List.filterMap_map,
        List.filterMap_cons, ← ih]
      rfl

/-- The support vectors are the samples with positive multipliers. -/
theorem supportEntries_eq {solution : Solution ℚ}
    (hsupport : solution.support = support solution.alpha)
    (hlength : solution.alpha.length = samples.length) :
    Model.supportEntries samples solution =
      (solution.alpha.zip samples).filterMap fun e =>
        if 0 < e.1 then some (e.2.features, e.1 * e.2.label) else none := by
  rw [← filterMap_range_getElem?, List.length_zip, ← hlength, Nat.min_self, Model.supportEntries,
    hsupport, support, List.filterMap_filter]
  apply List.filterMap_congr
  intro i hi
  rw [List.mem_range] at hi
  have hsample := List.getElem?_eq_getElem (hlength ▸ hi)
  have halpha := List.getElem?_eq_getElem hi
  have hzip : (solution.alpha.zip samples)[i]? = some (solution.alpha[i], samples[i]) :=
    List.getElem?_zip_eq_some.2 ⟨halpha, hsample⟩
  by_cases hpos : 0 < solution.alpha[i]
  · simp [hsample, halpha, hzip, hpos]
  · simp [halpha, hzip, hpos]

/-- Samples that the model leaves out do not weigh, because no multiplier is negative. -/
theorem decisionOn?_eq_decisionOfAll {solution : Solution ℚ}
    (hsupport : solution.support = support solution.alpha)
    (hlength : solution.alpha.length = samples.length) (hbox : ∀ a ∈ solution.alpha, 0 ≤ a)
    (v : SparseVector ℚ) :
    Model.decisionOn? (fun x y => some (kernel x y)) samples solution v =
      some (decisionOfAll kernel samples solution.alpha solution.bias v) := by
  rw [Model.decisionOn?, Model.weigh?, Model.terms?_some, Option.map_some, total_eq_sum,
    supportEntries_eq hsupport hlength, decisionOfAll]
  generalize solution.alpha = alpha at hbox
  congr 2
  clear hlength
  induction alpha generalizing samples with
  | nil => simp
  | cons a alpha ih =>
      cases samples with
      | nil => simp
      | cons x samples =>
          rw [List.forall_mem_cons] at hbox
          rw [List.zip_cons_cons, List.zipWith_cons_cons, List.sum_cons, ← ih hbox.2]
          by_cases hpos : 0 < a
          · simp [hpos]
          · have hzero : a = 0 := le_antisymm (not_lt.1 hpos) hbox.1
            simp [hzero]

/-- In a search over exact numbers with any symmetric kernel, on accepted samples and with any
draws, the error of each sample is after every step the decision by all samples less the label, and
in the end it is the decision of the model less the label. -/
theorem errors_exact_throughout (hcheck : check samples = none)
    (hsymm : ∀ x y, kernel x y = kernel y x) {limits : SearchLimits ℚ}
    (hpenalty : 0 < limits.penalty)
    {draw : ℕ → τ → ℕ × τ} (hdraw : ∀ bound draws, 0 < bound → (draw bound draws).1 < bound)
    (capacity : ℕ) (draws : τ) :
    ∃ solution history last after,
      (solve (.remembering (pairEntry (fun x y => some (kernel x y)) samples.toArray) draw) limits
          (samples.map Sample.label)).run (.ofSize samples.length capacity, draws) =
        .ok (solution, after) ∧
      (solveHistory (.remembering (pairEntry (fun x y => some (kernel x y)) samples.toArray) draw)
          limits (samples.map Sample.label)).run (.ofSize samples.length capacity, draws) =
        .ok ((solution, history), after) ∧
      (∀ s ∈ history, s.alpha.length = samples.length ∧ ErrorsExact kernel samples s) ∧
      history.getLast? = some last ∧
      ∀ (k : ℕ) (x : Sample ℚ), samples[k]? = some x → ∃ decision,
        Model.decisionOn? (fun x y => some (kernel x y)) samples solution x.features =
          some decision ∧
        last.errors[k]? = some (decision - x.label) := by
  have hmoves : KeptByMoves (gram kernel samples) limits.penalty (samples.map Sample.label)
      fun s => Feasible limits.penalty (samples.map Sample.label) s.alpha ∧
        ErrorsExact kernel samples s := by
    intro s i j p target _ hs hmove
    exact ⟨feasible_moved (label_of_check hcheck) hs.1 hmove, errorsExact_moved p hs.2 _ _⟩
  obtain ⟨solution, history, last, after, hrun, hhistory, hkeeps, hlast, halpha, hbias, hsupport⟩ :=
    exists_run_solveHistory hcheck (fun _ _ => pairEntry_eq_gram) (fun _ _ => gram_comm hsymm) hdraw
      hmoves ⟨feasible_initial hpenalty _, errorsExact_initial⟩ capacity draws
  have hlength : ∀ s ∈ history, s.alpha.length = samples.length := by
    intro s hs
    exact (hkeeps s hs).1.alpha.trans (List.length_map ..)
  refine ⟨solution, history, last, after, hrun, hhistory, ?_, hlast, ?_⟩
  · intro s hs
    exact ⟨hlength s hs, (hkeeps s hs).2.2⟩
  · intro k x hx
    have hmem := List.mem_of_getLast? hlast
    obtain ⟨-, hfeasible, herrors⟩ := hkeeps last hmem
    refine ⟨decisionOfAll kernel samples last.alpha last.bias x.features, ?_, herrors k x hx⟩
    rw [← halpha, ← hbias]
    apply decisionOn?_eq_decisionOfAll
    · rw [hsupport, halpha]
    · rw [halpha, hlength last hmem]
    · intro a ha
      exact (hfeasible.box a (halpha ▸ ha)).1

/-- The errors of a search on two opposite samples, with the inner product as kernel, are exact. -/
theorem errors_exact_throughout_opposite :
    check opposite = none ∧ 0 < fewSweeps.penalty ∧
      ∃ solution history last after,
        (solve (.remembering
            (pairEntry (fun x y => some (SparseVector.dot x y)) opposite.toArray) drawInTurn)
            fewSweeps (opposite.map Sample.label)).run (.ofSize opposite.length 1, 0) =
          .ok (solution, after) ∧
        (solveHistory (.remembering
            (pairEntry (fun x y => some (SparseVector.dot x y)) opposite.toArray) drawInTurn)
            fewSweeps (opposite.map Sample.label)).run (.ofSize opposite.length 1, 0) =
          .ok ((solution, history), after) ∧
        (∀ s ∈ history, s.alpha.length = opposite.length ∧
          ErrorsExact SparseVector.dot opposite s) ∧
        history.getLast? = some last ∧
        ∀ (k : ℕ) (x : Sample ℚ), opposite[k]? = some x → ∃ decision,
          Model.decisionOn? (fun x y => some (SparseVector.dot x y)) opposite solution x.features =
            some decision ∧
          last.errors[k]? = some (decision - x.label) := by
  have hcheck : check opposite = none := by decide +kernel
  have hpenalty : 0 < fewSweeps.penalty := by decide +kernel
  exact ⟨hcheck, hpenalty, errors_exact_throughout hcheck (SparseVector.dot_comm mul_comm) hpenalty
    fst_drawInTurn_lt 1 0⟩

end Smo
end Retrace
