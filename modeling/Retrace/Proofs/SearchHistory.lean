import Retrace.Proofs.SearchResults

/-!
# The history of a search

A search passes through many states before it ends: one after every visit of a sample in every
sweep.  Here the search is run a second time with all of these states kept.  The record of the
states is only a record: without it the run is the search itself.

Main results:

- Theorem `map_fst_solveHistory`: forgetting the states of the history leaves the search.
- Theorem `ensures_solveHistory`: the solution is read off the last state.
-/

namespace Retrace
namespace Smo

variable {α σ : Type} [Scalar α]

section

variable (source : Source σ α) (limits : SearchLimits α) (labels : List α)

/-- Visit so many samples from `i` on, with the states after each visit. -/
def sweepHistory (i : Nat) : Nat → State α → Bool → Ask σ ((State α × Bool) × List (State α))
  | 0, s, moved => pure ((s, moved), [])
  | steps + 1, s, moved => do
      let (s, now) ← visit source limits labels i s
      let (last, more) ← sweepHistory (i + 1) steps s (moved || now)
      return (last, s :: more)

/-- Sweep as the search does, with the states after each visit of each sweep. -/
def searchHistory :
    Nat → State α → Nat → Nat → Ask σ ((State α × Nat) × List (State α))
  | 0, s, _, done => pure ((s, done), [])
  | sweeps + 1, s, passes, done =>
      if passes < limits.maxPasses then do
        let ((s, moved), visited) ← sweepHistory source limits labels 0 labels.length s false
        let (last, more) ← searchHistory sweeps s (if moved then 0 else passes + 1) (done + 1)
        return (last, visited ++ more)
      else
        pure ((s, done), [])

/-- Search from the beginning, with all states from the first one to the last one. -/
def solveHistory : Ask σ (Solution α × List (State α)) := do
  let ((s, sweeps), visited) ←
    searchHistory source limits labels limits.maxSweeps (.initial labels) 0 0
  return (⟨s.alpha, s.bias, support s.alpha, sweeps⟩, .initial labels :: visited)

/-! ## Forgetting the states -/

/-- A sweep with its history is the sweep. -/
theorem map_fst_sweepHistory (i steps : Nat) (s : State α) (moved : Bool) :
    Prod.fst <$> sweepHistory source limits labels i steps s moved =
      sweepFrom source limits labels i steps s moved := by
  induction steps generalizing i s moved with
  | zero => simp [sweepHistory, sweepFrom]
  | succ steps ih => simp [sweepHistory, sweepFrom, ← ih]

/-- A search with its history is the search. -/
theorem map_fst_searchHistory (sweeps : Nat) (s : State α) (passes done : Nat) :
    Prod.fst <$> searchHistory source limits labels sweeps s passes done =
      search source limits labels sweeps s passes done := by
  induction sweeps generalizing s passes done with
  | zero => simp [searchHistory, search]
  | succ sweeps ih =>
      unfold searchHistory search
      split
      · simp [← ih, ← map_fst_sweepHistory]
      · simp

/-- Forgetting the states of the history leaves the search. -/
theorem map_fst_solveHistory :
    Prod.fst <$> solveHistory source limits labels = solve source limits labels := by
  simp [solveHistory, solve, ← map_fst_searchHistory]

/-- So the search comes to the same solution, in the same state. -/
theorem run_solve_of_history {first after : σ} {solution : Solution α} {history : List (State α)}
    (h : (solveHistory source limits labels).run first = .ok ((solution, history), after)) :
    (solve source limits labels).run first = .ok (solution, after) := by
  rw [← map_fst_solveHistory, StateT.run_map, h]
  rfl

/-! ## The last state -/

/-- The history of a sweep ends where the sweep ends. -/
theorem ensures_sweepHistory (i steps : Nat) (s : State α) (moved : Bool) :
    Ensures (fun r => (s :: r.2).getLast? = some r.1.1)
      (sweepHistory source limits labels i steps s moved) := by
  induction steps generalizing i s moved with
  | zero => exact ensures_pure rfl
  | succ steps ih =>
      apply Ensures.after
      intro r
      apply (ih (i + 1) r.1 (moved || r.2)).bind
      intro t ht
      apply ensures_pure
      rw [List.getLast?_cons_cons]
      exact ht

/-- The history of a search ends where the search ends. -/
theorem ensures_searchHistory (sweeps : Nat) (s : State α) (passes done : Nat) :
    Ensures (fun r => (s :: r.2).getLast? = some r.1.1)
      (searchHistory source limits labels sweeps s passes done) := by
  induction sweeps generalizing s passes done with
  | zero => exact ensures_pure rfl
  | succ sweeps ih =>
      unfold searchHistory
      apply ensures_ite
      · apply (ensures_sweepHistory source limits labels 0 labels.length s false).bind
        intro r hr
        apply (ih r.1.1 _ (done + 1)).bind
        intro t ht
        apply ensures_pure
        -- the states of the sweep end with the state from which the next one starts
        rw [List.getLast?_cons] at ht hr ⊢
        rw [List.getLast?_append]
        cases hlast : t.2.getLast? with
        | some last => simpa [hlast] using ht
        | none =>
            have hsame : r.1.1 = t.1.1 := by simpa [hlast] using ht
            simpa [hlast, hsame] using hr
      · exact ensures_pure rfl

/-- The solution is read off the last state of the history. -/
theorem ensures_solveHistory :
    Ensures (fun r => ∃ last, r.2.getLast? = some last ∧ r.1.alpha = last.alpha ∧
      r.1.bias = last.bias ∧ r.1.support = support last.alpha)
      (solveHistory source limits labels) := by
  apply (ensures_searchHistory source limits labels limits.maxSweeps (.initial labels) 0 0).bind
  intro r hr
  exact ensures_pure ⟨r.1.1, hr, rfl, rfl, rfl⟩

end

end Smo
end Retrace
