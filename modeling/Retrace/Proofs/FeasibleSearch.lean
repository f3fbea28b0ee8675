import Mathlib.Tactic.LinearCombination
import Mathlib.Tactic.Ring
import Retrace.Proofs.SearchSteps

/-!
# Searches stay feasible

Multipliers are feasible if each of them is between zero and the penalty and their sum, each with
the sign of its label, is zero.  A move brings the second multiplier between bounds that are chosen
for the first one too, and the first one follows on the line that keeps the sum.  So a search that
starts from zero is feasible after every step.

Main results:

- Theorem `Pair.Moves.partner_mem`: the first multiplier stays between its bounds.
- Theorem `feasible_moved`: a move keeps multipliers feasible.
- Theorem `feasible_throughout`: every state of a search is feasible.
-/

namespace Retrace
namespace Smo

variable {β τ : Type}

/-! ## Sums over multipliers -/

/-- A sum over two lists after one entry was replaced. -/
theorem sum_zipWith_set (f : ℚ → β → ℚ) {xs : List ℚ} {ys : List β} {i : ℕ} {x : ℚ} {y : β}
    (hx : xs[i]? = some x) (hy : ys[i]? = some y) (value : ℚ) :
    (List.zipWith f (xs.set i value) ys).sum =
      (List.zipWith f xs ys).sum + (f value y - f x y) := by
  induction xs generalizing ys i with
  | nil => simp at hx
  | cons a xs ih =>
      cases ys with
      | nil => simp at hy
      | cons b ys =>
          cases i with
          | zero =>
              rw [List.getElem?_cons_zero, Option.some.injEq] at hx hy
              subst hx hy
              simp only [List.set_cons_zero, List.zipWith_cons_cons, List.sum_cons]
              ring
          | succ i =>
              rw [List.getElem?_cons_succ] at hx hy
              simp only [List.set_cons_succ, List.zipWith_cons_cons, List.sum_cons, ih hx hy]
              ring

/-- A sum over multipliers after a move, by what the move does to the two samples. -/
theorem Pair.sum_zipWith_moved {labels : List ℚ} {s : State ℚ} {i j : ℕ} (p : Pair labels s i j)
    (f : ℚ → β → ℚ) {ys : List β} {x y : β} (hx : ys[i]? = some x) (hy : ys[j]? = some y)
    (value : ℕ → ℕ → ℚ) (penalty target : ℚ) :
    (List.zipWith f (p.moved value penalty target).alpha ys).sum =
      (List.zipWith f s.alpha ys).sum + (f (p.partner target) x - f p.ai x) +
        (f target y - f p.aj y) := by
  have hj : (s.alpha.set i (p.partner target))[j]? = some p.aj := by
    rw [List.getElem?_set_ne p.ne, p.alpha_j]
  rw [moved, sum_zipWith_set f hj hy, sum_zipWith_set f p.alpha_i hx]

/-! ## Feasible multipliers -/

/-- Whether multipliers are between zero and the penalty and balance out. -/
structure Feasible (penalty : ℚ) (labels alpha : List ℚ) : Prop where
  box : ∀ a ∈ alpha, 0 ≤ a ∧ a ≤ penalty
  balanced : (List.zipWith (fun a y => a * y) alpha labels).sum = 0

section

variable {labels : List ℚ} {s : State ℚ} {i j : ℕ} {p : Pair labels s i j} {value : ℕ → ℕ → ℚ}
  {penalty target : ℚ}

/-- A step moves to a target within the bounds. -/
theorem Pair.Moves.target_mem (h : p.Moves value penalty target) :
    (p.bounds penalty).1 ≤ target ∧ target ≤ (p.bounds penalty).2 := by
  obtain ⟨found, hfound, hmem⟩ := exists_clamp? h.room.le
    (p.aj - p.yj * (p.ei - p.ej) / curvature value i j)
  rw [h.clamped, Option.some.injEq] at hfound
  rw [hfound]
  exact hmem

/-- The second multiplier stays between zero and the penalty. -/
theorem Pair.Moves.target_box (h : p.Moves value penalty target) :
    0 ≤ target ∧ target ≤ penalty := by
  have hmem := h.target_mem
  unfold Pair.bounds Smo.bounds at hmem
  split at hmem
  · simp only [larger_eq_max, smaller_eq_min, max_le_iff, le_min_iff] at hmem
    exact ⟨hmem.1.2, hmem.2.2⟩
  · simp only [larger_eq_max, smaller_eq_min, max_le_iff, le_min_iff] at hmem
    exact ⟨hmem.1.2, hmem.2.2⟩

/-- The bounds of the second multiplier keep the first one between zero and the penalty. -/
theorem Pair.Moves.partner_mem (h : p.Moves value penalty target) (hyi : p.yi = 1 ∨ p.yi = -1)
    (hyj : p.yj = 1 ∨ p.yj = -1) : 0 ≤ p.partner target ∧ p.partner target ≤ penalty := by
  have hmem := h.target_mem
  unfold Pair.bounds Smo.bounds at hmem
  unfold Pair.partner
  by_cases hsame : p.yi = p.yj
  · have hproduct : p.yi * p.yj = 1 := by
      rcases hyj with hyj | hyj <;> rw [hsame, hyj] <;> norm_num
    rw [if_pos (beq_iff_eq.2 hsame)] at hmem
    simp only [larger_eq_max, smaller_eq_min, max_le_iff, le_min_iff] at hmem
    obtain ⟨⟨hlow, -⟩, hhigh, -⟩ := hmem
    rw [hproduct]
    constructor <;> linarith
  · have hproduct : p.yi * p.yj = -1 := by
      rcases hyi with hyi | hyi <;> rcases hyj with hyj | hyj
      · exact absurd (hyi.trans hyj.symm) hsame
      · rw [hyi, hyj, one_mul]
      · rw [hyi, hyj, mul_one]
      · exact absurd (hyi.trans hyj.symm) hsame
    rw [if_neg (by rw [beq_iff_eq]; exact hsame)] at hmem
    simp only [larger_eq_max, smaller_eq_min, max_le_iff, le_min_iff] at hmem
    obtain ⟨⟨hlow, -⟩, hhigh, -⟩ := hmem
    rw [hproduct]
    constructor <;> linarith

/-- A move keeps multipliers feasible. -/
theorem feasible_moved (hlabels : ∀ y ∈ labels, y = 1 ∨ y = -1)
    (hs : Feasible penalty labels s.alpha) (h : p.Moves value penalty target) :
    Feasible penalty labels (p.moved value penalty target).alpha := by
  have hyi := hlabels p.yi (List.mem_of_getElem? p.label_i)
  have hyj := hlabels p.yj (List.mem_of_getElem? p.label_j)
  constructor
  · intro a ha
    unfold Pair.moved at ha
    rcases List.mem_or_eq_of_mem_set ha with ha | rfl
    · rcases List.mem_or_eq_of_mem_set ha with ha | rfl
      · exact hs.box a ha
      · exact h.partner_mem hyi hyj
    · exact h.target_box
  · rw [p.sum_zipWith_moved _ p.label_i p.label_j, hs.balanced, Pair.partner]
    -- the first multiplier moves by as much as the second one, with the signs of both labels
    have hsquare : p.yi * p.yi = 1 := by
      rcases hyi with hyi | hyi <;> rw [hyi] <;> norm_num
    linear_combination (p.yj * (p.aj - target)) * hsquare

end

/-- The state from the start is feasible. -/
theorem feasible_initial {penalty : ℚ} (hpenalty : 0 < penalty) (labels : List ℚ) :
    Feasible penalty labels (State.initial labels).alpha := by
  constructor
  · intro a ha
    obtain ⟨y, -, rfl⟩ := List.mem_map.1 ha
    exact ⟨le_refl 0, hpenalty.le⟩
  · unfold State.initial
    induction labels with
    | nil => rfl
    | cons y labels ih =>
        rw [List.map_cons, List.zipWith_cons_cons, List.sum_cons]
        rw [zero_mul, zero_add]
        exact ih

/-- The entries of a matrix that has a value everywhere. -/
def wholeMatrix (value : ℕ → ℕ → ℚ) (place : ℕ × ℕ) : Option ℚ :=
  some (value place.1 place.2)

/-- In a search over exact numbers with any symmetric matrix, on accepted samples and with any
draws, every state from the first to the last one is feasible, and so is the solution. -/
theorem feasible_throughout {samples : List (Sample ℚ)} (hcheck : check samples = none)
    {value : ℕ → ℕ → ℚ} (hsymm : ∀ i j, value i j = value j i) {limits : SearchLimits ℚ}
    (hpenalty : 0 < limits.penalty) {draw : ℕ → τ → ℕ × τ}
    (hdraw : ∀ bound draws, 0 < bound → (draw bound draws).1 < bound) (capacity : ℕ) (draws : τ) :
    ∃ solution history after,
      (solve (.remembering (wholeMatrix value) draw) limits
          (samples.map Sample.label)).run (.ofSize samples.length capacity, draws) =
        .ok (solution, after) ∧
      (solveHistory (.remembering (wholeMatrix value) draw) limits
          (samples.map Sample.label)).run (.ofSize samples.length capacity, draws) =
        .ok ((solution, history), after) ∧
      (∀ s ∈ history, s.alpha.length = samples.length ∧
        Feasible limits.penalty (samples.map Sample.label) s.alpha) ∧
      solution.alpha.length = samples.length ∧
      Feasible limits.penalty (samples.map Sample.label) solution.alpha := by
  have hmoves : KeptByMoves value limits.penalty (samples.map Sample.label)
      fun s => Feasible limits.penalty (samples.map Sample.label) s.alpha := by
    intro s i j p target _ hs hmove
    exact feasible_moved (label_of_check hcheck) hs hmove
  have hentry : ∀ i j, i < samples.length → j < samples.length →
      wholeMatrix value (i, j) = some (value i j) := by
    intro i j _ _
    rfl
  obtain ⟨solution, history, last, after, hrun, hhistory, hkeeps, hlast, halpha, -⟩ :=
    exists_run_solveHistory hcheck hentry (fun i j _ _ => hsymm i j) hdraw hmoves
      (feasible_initial hpenalty _) capacity draws
  have hfeasible : ∀ s ∈ history, s.alpha.length = samples.length ∧
      Feasible limits.penalty (samples.map Sample.label) s.alpha := by
    intro s hs
    obtain ⟨hfits, hfeasible⟩ := hkeeps s hs
    exact ⟨hfits.alpha.trans (List.length_map ..), hfeasible⟩
  refine ⟨solution, history, after, hrun, hhistory, hfeasible, ?_⟩
  rw [halpha]
  exact hfeasible last (List.mem_of_getLast? hlast)

/-! ## Two opposite samples -/

/-- Two samples on the two sides of zero. -/
def opposite : List (Sample ℚ) :=
  [⟨⟨[0], [2]⟩, 1⟩, ⟨⟨[0], [-1]⟩, -1⟩]

/-- Limits for searches on few samples. -/
def fewSweeps : SearchLimits ℚ :=
  ⟨1, 1 / 1000, 10, 5⟩

/-- Draw one number after the other, beginning again at the bound. -/
def drawInTurn (bound turn : ℕ) : ℕ × ℕ :=
  (turn % bound, turn + 1)

theorem fst_drawInTurn_lt (bound turn : ℕ) (h : 0 < bound) : (drawInTurn bound turn).1 < bound :=
  Nat.mod_lt turn h

/-- A search on the two opposite samples is feasible throughout. -/
theorem feasible_throughout_opposite :
    check opposite = none ∧ 0 < fewSweeps.penalty ∧
      ∃ solution history after,
        (solve (.remembering (wholeMatrix fun i j => i * j + 1) drawInTurn) fewSweeps
            (opposite.map Sample.label)).run (.ofSize opposite.length 1, 0) =
          .ok (solution, after) ∧
        (solveHistory (.remembering (wholeMatrix fun i j => i * j + 1) drawInTurn) fewSweeps
            (opposite.map Sample.label)).run (.ofSize opposite.length 1, 0) =
          .ok ((solution, history), after) ∧
        (∀ s ∈ history, s.alpha.length = opposite.length ∧
          Feasible fewSweeps.penalty (opposite.map Sample.label) s.alpha) ∧
        solution.alpha.length = opposite.length ∧
        Feasible fewSweeps.penalty (opposite.map Sample.label) solution.alpha := by
  have hcheck : check opposite = none := by decide +kernel
  have hpenalty : 0 < fewSweeps.penalty := by decide +kernel
  refine ⟨hcheck, hpenalty, feasible_throughout hcheck ?_ hpenalty fst_drawInTurn_lt 1 0⟩
  intro i j
  rw [mul_comm]

end Smo
end Retrace
