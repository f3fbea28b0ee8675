import Mathlib.Data.List.Chain
import Mathlib.Tactic.FieldSimp
import Retrace.Proofs.SearchErrors

/-!
# Searches improve their objective

The dual objective of a support vector machine is the sum of the multipliers less half the squared
length of the vector that they weigh out.  Along the line on which a move shifts two multipliers it
is a parabola that is open downwards.  The second multiplier aims at the top of the parabola and is
brought between bounds that hold it already, so it never goes beyond the top: a move makes the
objective greater.  The slope and the top are read off the errors, so this rests on errors that are
exact.

Main results:

- Theorem `objective_moved`: what a move adds to the objective.
- Theorem `objective_lt_moved`: a move makes the objective greater.
- Theorem `improves_throughout`: so does every step that any state of a search can make, unless it
  changes nothing.
-/

namespace Retrace
namespace Smo

variable {τ : Type} {kernel : SparseVector ℚ → SparseVector ℚ → ℚ} {samples : List (Sample ℚ)}

/-! ## The objective -/

/-- A sum over samples, each with its multiplier and the sign of its label. -/
def weighted (samples : List (Sample ℚ)) (alpha : List ℚ) (f : Sample ℚ → ℚ) : ℚ :=
  (List.zipWith (fun a x => a * x.label * f x) alpha samples).sum

/-- The dual objective: the sum of the multipliers less half the sum, over all pairs of samples, of
the kernel values with both multipliers and both labels. -/
def objective (kernel : SparseVector ℚ → SparseVector ℚ → ℚ) (samples : List (Sample ℚ))
    (alpha : List ℚ) : ℚ :=
  alpha.sum - weighted samples alpha (fun x =>
    weighted samples alpha fun y => kernel x.features y.features) / 2

theorem weighted_add_mul (alpha : List ℚ) (f g : Sample ℚ → ℚ) (c : ℚ) :
    weighted samples alpha (fun x => f x + c * g x) =
      weighted samples alpha f + c * weighted samples alpha g := by
  unfold weighted
  induction alpha generalizing samples with
  | nil => simp
  | cons a alpha ih =>
      cases samples with
      | nil => simp
      | cons x samples =>
          simp only [List.zipWith_cons_cons, List.sum_cons, ih]
          ring

/-- The decision is a weighted sum of kernel values and the bias. -/
theorem decisionOfAll_eq_weighted (hsymm : ∀ x y, kernel x y = kernel y x) (alpha : List ℚ)
    (bias : ℚ) (x : Sample ℚ) :
    decisionOfAll kernel samples alpha bias x.features =
      weighted samples alpha (fun y => kernel x.features y.features) + bias := by
  unfold decisionOfAll weighted
  simp only [hsymm x.features]

section

variable {s : State ℚ} {i j : ℕ} (p : Pair (samples.map Sample.label) s i j) {xi xj : Sample ℚ}
  (value : ℕ → ℕ → ℚ) (penalty target : ℚ)

/-- A sum over samples after a move. -/
theorem Pair.weighted_moved (hi : samples[i]? = some xi) (hj : samples[j]? = some xj)
    (f : Sample ℚ → ℚ) :
    weighted samples (p.moved value penalty target).alpha f =
      weighted samples s.alpha f + p.deltaI target * f xi + p.deltaJ target * f xj := by
  have hyi : xi.label = p.yi := by simpa [hi] using p.label_i
  have hyj : xj.label = p.yj := by simpa [hj] using p.label_j
  unfold weighted
  rw [p.sum_zipWith_moved (fun a x => a * x.label * f x) hi hj, hyi, hyj, Pair.deltaI, Pair.deltaJ]
  ring

/-- Setting an entry changes the sum by the difference. -/
theorem sum_set_of_getElem? {xs : List ℚ} {k : ℕ} {x : ℚ} (hx : xs[k]? = some x) (y : ℚ) :
    (xs.set k y).sum = xs.sum + (y - x) := by
  obtain ⟨hk, rfl⟩ := List.getElem?_eq_some_iff.1 hx
  rw [List.sum_set', dif_pos hk]
  ring

/-- The sum of the multipliers after a move. -/
theorem Pair.sum_moved :
    (p.moved value penalty target).alpha.sum =
      s.alpha.sum + (p.partner target - p.ai) + (target - p.aj) := by
  have hj : (s.alpha.set i (p.partner target))[j]? = some p.aj := by
    rw [List.getElem?_set_ne p.ne, p.alpha_j]
  rw [moved, sum_set_of_getElem? hj, sum_set_of_getElem? p.alpha_i]

end

section

variable {s : State ℚ} {i j : ℕ} {p : Pair (samples.map Sample.label) s i j} {penalty target : ℚ}

/-- What a move adds to the objective: the slope is the difference of the errors, with the sign of
the second label, and the curvature is that of the line. -/
theorem objective_moved (hsymm : ∀ x y, kernel x y = kernel y x)
    (hlabels : ∀ y ∈ samples.map Sample.label, y = 1 ∨ y = -1)
    (hs : ErrorsExact kernel samples s) :
    objective kernel samples (p.moved (gram kernel samples) penalty target).alpha =
      objective kernel samples s.alpha + (target - p.aj) * (p.yj * (p.ei - p.ej)) +
        curvature (gram kernel samples) i j / 2 * (target - p.aj) ^ 2 := by
  have hi := p.label_i
  have hj := p.label_j
  rw [List.getElem?_map, Option.map_eq_some_iff] at hi hj
  obtain ⟨xi, hxi, hyi⟩ := hi
  obtain ⟨xj, hxj, hyj⟩ := hj
  have hsquarei : p.yi * p.yi = 1 := by
    rcases hlabels p.yi (List.mem_of_getElem? p.label_i) with h | h <;> rw [h] <;> norm_num
  have hsquarej : p.yj * p.yj = 1 := by
    rcases hlabels p.yj (List.mem_of_getElem? p.label_j) with h | h <;> rw [h] <;> norm_num
  have herrors : p.ei - p.ej =
      weighted samples s.alpha (fun y => kernel xi.features y.features) - p.yi -
        (weighted samples s.alpha (fun y => kernel xj.features y.features) - p.yj) := by
    have hei := hs i xi hxi
    have hej := hs j xj hxj
    rw [p.error_i, Option.some.injEq, decisionOfAll_eq_weighted hsymm, hyi] at hei
    rw [p.error_j, Option.some.injEq, decisionOfAll_eq_weighted hsymm, hyj] at hej
    rw [hei, hej]
    ring
  -- the weights of the two samples change by the same amount in opposite directions
  have hdeltaI : p.deltaI target = -(p.yj * (target - p.aj)) := by
    rw [Pair.deltaI, Pair.partner]
    linear_combination (p.yj * (p.aj - target)) * hsquarei
  have hdeltaJ : p.deltaJ target = p.yj * (target - p.aj) := rfl
  have hsquares : weighted samples (p.moved (gram kernel samples) penalty target).alpha (fun x =>
      weighted samples (p.moved (gram kernel samples) penalty target).alpha fun y =>
        kernel x.features y.features) =
      weighted samples s.alpha (fun x =>
        weighted samples s.alpha fun y => kernel x.features y.features) +
      2 * (p.deltaI target * weighted samples s.alpha (fun y => kernel xi.features y.features) +
        p.deltaJ target * weighted samples s.alpha (fun y => kernel xj.features y.features)) +
      (p.deltaI target ^ 2 * kernel xi.features xi.features +
        2 * p.deltaI target * p.deltaJ target * kernel xi.features xj.features +
        p.deltaJ target ^ 2 * kernel xj.features xj.features) := by
    have hmoved := p.weighted_moved (gram kernel samples) penalty target hxi hxj
    have hcolumn : ∀ z : Sample ℚ,
        weighted samples s.alpha (fun x => kernel x.features z.features) =
          weighted samples s.alpha (fun y => kernel z.features y.features) := by
      intro z
      simp only [hsymm z.features]
    rw [hmoved]
    simp only [hmoved, weighted_add_mul]
    rw [hcolumn, hcolumn, hsymm xj.features xi.features]
    ring
  unfold objective
  rw [p.sum_moved, hsquares, herrors, hdeltaI, hdeltaJ, curvature, gram_eq hxi hxi,
    gram_eq hxi hxj, gram_eq hxj hxj, Pair.partner]
  linear_combination ((target - p.aj) ^ 2 * (2 * kernel xi.features xj.features -
    kernel xi.features xi.features - kernel xj.features xj.features) / 2 - (target - p.aj)) *
      hsquarej

/-! ## Moves go upwards -/

/-- A value that is brought between bounds lies between what it was and any value within them. -/
theorem clamp?_between {low high x y a : ℚ} (hlow : low ≤ a) (hhigh : a ≤ high)
    (h : Scalar.clamp? low high x = some y) : 0 ≤ (y - a) * (x - y) := by
  rw [Scalar.clamp?, if_pos (hlow.trans hhigh), Option.some.injEq] at h
  split at h
  · subst h
    exact mul_nonneg_of_nonpos_of_nonpos (by linarith) (by linarith)
  · split at h
    · subst h
      exact mul_nonneg (by linarith) (by linarith)
    · rw [h, sub_self, mul_zero]

/-- The bounds of the second multiplier hold the value that it has. -/
theorem Pair.mem_bounds (hs : Feasible penalty (samples.map Sample.label) s.alpha) :
    (p.bounds penalty).1 ≤ p.aj ∧ p.aj ≤ (p.bounds penalty).2 := by
  obtain ⟨hai, hai'⟩ := hs.box p.ai (List.mem_of_getElem? p.alpha_i)
  obtain ⟨haj, haj'⟩ := hs.box p.aj (List.mem_of_getElem? p.alpha_j)
  unfold Pair.bounds Smo.bounds
  split
  · simp only [larger_eq_max, smaller_eq_min, max_le_iff, le_min_iff]
    refine ⟨⟨?_, haj⟩, ?_, haj'⟩ <;> linarith
  · simp only [larger_eq_max, smaller_eq_min, max_le_iff, le_min_iff]
    refine ⟨⟨?_, haj⟩, ?_, haj'⟩ <;> linarith

/-- A move changes the second multiplier. -/
theorem Pair.Moves.target_ne {value : ℕ → ℕ → ℚ} (h : p.Moves value penalty target) :
    target - p.aj ≠ 0 := by
  intro hzero
  have hfar := h.far
  have hleast : (0 : ℚ) < leastMove := by decide +kernel
  rw [hzero, Scalar.magnitude, if_neg (lt_irrefl 0)] at hfar
  exact absurd hfar (not_le.2 hleast)

/-- A move makes the objective greater. -/
theorem objective_lt_moved (hsymm : ∀ x y, kernel x y = kernel y x)
    (hlabels : ∀ y ∈ samples.map Sample.label, y = 1 ∨ y = -1)
    (hfeasible : Feasible penalty (samples.map Sample.label) s.alpha)
    (hs : ErrorsExact kernel samples s) (h : p.Moves (gram kernel samples) penalty target) :
    objective kernel samples s.alpha <
      objective kernel samples (p.moved (gram kernel samples) penalty target).alpha := by
  obtain ⟨hlow, hhigh⟩ := p.mem_bounds hfeasible
  have hbetween := clamp?_between hlow hhigh h.clamped
  have hcurved := h.curved
  have hsquare : 0 < (target - p.aj) ^ 2 := sq_pos_of_ne_zero h.target_ne
  rw [objective_moved hsymm hlabels hs]
  generalize curvature (gram kernel samples) i j = eta at hbetween hcurved
  -- the move does not go beyond the top, where the slope has come down to zero
  have hslope : 0 ≤ (target - p.aj) * (p.yj * (p.ei - p.ej)) + eta * (target - p.aj) ^ 2 := by
    have htop : (target - p.aj) * (p.yj * (p.ei - p.ej)) + eta * (target - p.aj) ^ 2 =
        -eta * ((target - p.aj) * (p.aj - p.yj * (p.ei - p.ej) / eta - target)) := by
      field_simp [hcurved.ne]
      ring
    rw [htop]
    exact mul_nonneg (by linarith) hbetween
  have hbend : 0 < -eta / 2 * (target - p.aj) ^ 2 := mul_pos (by linarith) hsquare
  linarith

end

/-! ## Steps -/

section

variable {σ : Type} {holds : σ → Prop} {source : Source σ ℚ} {value : ℕ → ℕ → ℚ} {labels : List ℚ}

/-- A sample is not moved together with itself: the line would be flat. -/
theorem delivers_takeStep_self (h : source.Answers holds value labels.length) {s : State ℚ}
    (hs : s.Fits labels) {i : ℕ} (hi : i < labels.length) (penalty : ℚ) :
    Delivers holds (· = (s, false)) (takeStep source penalty labels i i s) := by
  obtain ⟨y, hlabel⟩ : ∃ y, labels[i]? = some y := ⟨_, List.getElem?_eq_getElem hi⟩
  obtain ⟨a, halpha⟩ : ∃ a, s.alpha[i]? = some a :=
    ⟨_, List.getElem?_eq_getElem (hs.alpha.symm ▸ hi)⟩
  obtain ⟨e, herror⟩ : ∃ e, s.errors[i]? = some e :=
    ⟨_, List.getElem?_eq_getElem (hs.errors.symm ▸ hi)⟩
  unfold takeStep
  apply (delivers_at' hlabel).bind_eq
  apply (delivers_at' hlabel).bind_eq
  apply (delivers_at' halpha).bind_eq
  apply (delivers_at' halpha).bind_eq
  apply (delivers_at' herror).bind_eq
  apply (delivers_at' herror).bind_eq
  rcases Smo.bounds penalty y y a a with ⟨low, high⟩
  simp only
  split
  · exact delivers_pure rfl
  · apply (h.entry i i hi hi).bind_eq
    apply (h.entry i i hi hi).bind_eq
    apply (h.entry i i hi hi).bind_eq
    have hflat : (0 : ℚ) ≤ (1 + 1) * value i i - value i i - value i i := le_of_eq (by ring)
    rw [if_pos hflat]
    exact delivers_pure rfl

/-- A step on two samples makes the objective greater, or it leaves the state as it is and says
so. -/
theorem delivers_takeStep_improves (hsymm : ∀ x y, kernel x y = kernel y x)
    (hlabels : ∀ y ∈ samples.map Sample.label, y = 1 ∨ y = -1)
    (h : source.Answers holds (gram kernel samples) (samples.map Sample.label).length)
    {s : State ℚ} (hs : s.Fits (samples.map Sample.label)) {penalty : ℚ}
    (hfeasible : Feasible penalty (samples.map Sample.label) s.alpha)
    (herrors : ErrorsExact kernel samples s) {i j : ℕ}
    (hi : i < (samples.map Sample.label).length) (hj : j < (samples.map Sample.label).length) :
    Delivers holds
      (fun r => (r.2 = true → objective kernel samples s.alpha <
          objective kernel samples r.1.alpha) ∧ (r.2 = false → r.1 = s))
      (takeStep source penalty (samples.map Sample.label) i j s) := by
  by_cases hij : i = j
  · subst hij
    apply (delivers_takeStep_self h hs hi penalty).mono
    rintro r rfl
    exact ⟨by simp, fun _ => rfl⟩
  · obtain ⟨p⟩ := hs.exists_pair hi hj hij
    apply (delivers_takeStep h p hi hj hs.errors.le penalty).mono
    rintro r (rfl | ⟨target, htarget, rfl⟩)
    · exact ⟨by simp, fun _ => rfl⟩
    · exact ⟨fun _ => objective_lt_moved hsymm hlabels hfeasible herrors htarget, by simp⟩

end

/-! ## Runs -/

section

variable {σ : Type} {holds : σ → Prop} {source : Source σ ℚ} {value : ℕ → ℕ → ℚ} {labels : List ℚ}
  {limits : SearchLimits ℚ} {keeps : State ℚ → Prop} {rises : State ℚ → State ℚ → Prop}

/-- Whether a state is the same as the one before it or is above it. -/
def SameOr (rises : State ℚ → State ℚ → Prop) (s t : State ℚ) : Prop :=
  t = s ∨ rises s t

variable (h : source.Answers holds value labels.length) (hlabels : 2 ≤ labels.length)
  (hmoves : KeptByMoves value limits.penalty labels keeps)
  (hrises : ∀ {s : State ℚ} {i j : ℕ} (p : Pair labels s i j) {target : ℚ}, keeps s →
    p.Moves value limits.penalty target → rises s (p.moved value limits.penalty target))

include h hlabels hmoves hrises

/-- Where every move rises, each visit of a sweep rises or changes nothing. -/
theorem delivers_sweepHistory_chain {i steps : ℕ} (hsteps : i + steps ≤ labels.length)
    {s : State ℚ} (hs : s.Fits labels) (hkeeps : keeps s) (moved : Bool) :
    Delivers holds
      (fun r => (r.1.1.Fits labels ∧ keeps r.1.1) ∧ (s :: r.2).IsChain (SameOr rises) ∧
        (s :: r.2).getLast? = some r.1.1)
      (sweepHistory source limits labels i steps s moved) := by
  induction steps generalizing i s moved with
  | zero => exact delivers_pure ⟨⟨hs, hkeeps⟩, .singleton s, rfl⟩
  | succ steps ih =>
      unfold sweepHistory
      apply (delivers_visit_moves h hlabels (by omega) hs).bind
      intro r hr
      have hkept : r.1.Fits labels ∧ keeps r.1 := by
        rcases hr with hsame | ⟨j, p, target, htarget, hmoved⟩
        · rw [hsame]
          exact ⟨hs, hkeeps⟩
        · rw [hmoved]
          exact ⟨p.fits_moved hs _ _, hmoves p hs hkeeps htarget⟩
      have hlink : SameOr rises s r.1 := by
        rcases hr with hsame | ⟨j, p, target, htarget, hmoved⟩
        · exact .inl hsame
        · rw [hmoved]
          exact .inr (hrises p hkeeps htarget)
      apply (ih (by omega) hkept.1 hkept.2 (moved || r.2)).bind
      intro t ht
      apply delivers_pure
      refine ⟨ht.1, ht.2.1.cons_cons hlink, ?_⟩
      rw [List.getLast?_cons_cons]
      exact ht.2.2

/-- From state to state of a search nothing changes or something rises. -/
theorem delivers_searchHistory_chain (sweeps : ℕ) {s : State ℚ} (hs : s.Fits labels)
    (hkeeps : keeps s) (passes done : ℕ) :
    Delivers holds (fun r => (s :: r.2).IsChain (SameOr rises))
      (searchHistory source limits labels sweeps s passes done) := by
  induction sweeps generalizing s passes done with
  | zero => exact delivers_pure (.singleton s)
  | succ sweeps ih =>
      unfold searchHistory
      split
      · apply (delivers_sweepHistory_chain h hlabels hmoves hrises (by omega) hs hkeeps false).bind
        intro r hr
        obtain ⟨⟨hfits, hkept⟩, hchain, hlast⟩ := hr
        apply (ih hfits hkept _ (done + 1)).bind
        intro t ht
        apply delivers_pure
        -- the next sweep goes on where this one ends
        rw [← List.cons_append, List.isChain_append]
        rw [List.isChain_cons] at ht
        refine ⟨hchain, ht.2, fun x hx y hy => ?_⟩
        rw [hlast, Option.mem_some_iff] at hx
        exact hx ▸ ht.1 y hy
      · exact delivers_pure (.singleton s)

/-- Where every move rises, each state of a search is the same as the one before it or above it. -/
theorem delivers_solveHistory_chain (hinitial : keeps (.initial labels)) :
    Delivers holds (fun r => r.2.IsChain (SameOr rises)) (solveHistory source limits labels) := by
  unfold solveHistory
  apply (delivers_searchHistory_chain h hlabels hmoves hrises limits.maxSweeps
    (State.fits_initial labels) hinitial 0 0).bind
  intro r hr
  exact delivers_pure hr

end

/-- In a search over exact numbers with any symmetric kernel, on accepted samples and with any
draws, every visit of a sample makes the objective greater or changes nothing.  So does a step on
any two samples in any state of the search, whatever kernel values are remembered: it makes the
objective greater if it says that it moved, and otherwise multipliers, bias and errors stay. -/
theorem improves_throughout (hcheck : check samples = none)
    (hsymm : ∀ x y, kernel x y = kernel y x) {limits : SearchLimits ℚ}
    (hpenalty : 0 < limits.penalty)
    {draw : ℕ → τ → ℕ × τ} (hdraw : ∀ bound draws, 0 < bound → (draw bound draws).1 < bound)
    (capacity : ℕ) (draws : τ) :
    let entry := pairEntry (fun x y => some (kernel x y)) samples.toArray
    ∃ solution history after,
      (solve (.remembering entry draw) limits (samples.map Sample.label)).run
          (.ofSize samples.length capacity, draws) = .ok (solution, after) ∧
      (solveHistory (.remembering entry draw) limits (samples.map Sample.label)).run
          (.ofSize samples.length capacity, draws) = .ok ((solution, history), after) ∧
      history.IsChain (SameOr fun s t =>
        objective kernel samples s.alpha < objective kernel samples t.alpha) ∧
      ∀ s ∈ history, ∀ i j, i < samples.length → j < samples.length →
        ∀ (matrix : KernelMatrix ℚ) (turn : τ), matrix.Faithful entry →
          ∃ t moved later,
            (takeStep (.remembering entry draw) limits.penalty (samples.map Sample.label) i j
              s).run (matrix, turn) = .ok ((t, moved), later) ∧
            (moved = true →
              objective kernel samples s.alpha < objective kernel samples t.alpha) ∧
            (moved = false → t = s) := by
  intro entry
  have hlabels := label_of_check hcheck
  have hlength : (samples.map Sample.label).length = samples.length := List.length_map ..
  have hanswers : (Source.remembering entry draw).Answers (fun s => s.1.Faithful entry)
      (gram kernel samples) (samples.map Sample.label).length := by
    rw [hlength]
    exact answers_remembering (fun _ _ => pairEntry_eq_gram) (fun _ _ => gram_comm hsymm) hdraw
  -- the objective rises where multipliers are feasible and errors exact, which moves keep together
  have hmoves : KeptByMoves (gram kernel samples) limits.penalty (samples.map Sample.label)
      fun s => Feasible limits.penalty (samples.map Sample.label) s.alpha ∧
        ErrorsExact kernel samples s := by
    intro s i j p target _ hs hmove
    exact ⟨feasible_moved hlabels hs.1 hmove, errorsExact_moved p hs.2 _ _⟩
  have hinitial : Feasible limits.penalty (samples.map Sample.label)
      (State.initial (samples.map Sample.label)).alpha ∧
        ErrorsExact kernel samples (.initial (samples.map Sample.label)) :=
    ⟨feasible_initial hpenalty _, errorsExact_initial⟩
  obtain ⟨solution, history, last, after, hrun, hhistory, hkeeps, -⟩ :=
    exists_run_solveHistory hcheck (fun _ _ => pairEntry_eq_gram) (fun _ _ => gram_comm hsymm) hdraw
      hmoves hinitial capacity draws
  refine ⟨solution, history, after, hrun, hhistory, ?_, ?_⟩
  · have hrises : ∀ {s : State ℚ} {i j : ℕ} (p : Pair (samples.map Sample.label) s i j)
        {target : ℚ}, Feasible limits.penalty (samples.map Sample.label) s.alpha ∧
          ErrorsExact kernel samples s →
        p.Moves (gram kernel samples) limits.penalty target →
        objective kernel samples s.alpha <
          objective kernel samples (p.moved (gram kernel samples) limits.penalty target).alpha := by
      intro s i j p target hs hmove
      exact objective_lt_moved hsymm hlabels hs.1 hs.2 hmove
    have hchain : Delivers (fun s => s.1.Faithful entry)
        (fun r => r.2.IsChain (SameOr fun s t =>
          objective kernel samples s.alpha < objective kernel samples t.alpha))
        (solveHistory (.remembering entry draw) limits (samples.map Sample.label)) :=
      delivers_solveHistory_chain hanswers (hlength.symm ▸ two_le_length_of_check hcheck) hmoves
        hrises hinitial
    obtain ⟨⟨found, states⟩, later, hfound, -, hstates⟩ := hchain.exists_run
      (.ofSize samples.length capacity, draws) (KernelMatrix.faithful_ofSize _ _ _)
    -- both runs start alike, so they are one run
    have hsame := Except.ok.inj (hhistory.symm.trans hfound)
    rw [Prod.mk.injEq, Prod.mk.injEq] at hsame
    rw [hsame.1.2]
    exact hstates
  · intro s hs i j hi hj matrix turn hfaithful
    obtain ⟨hfits, hfeasible, herrors⟩ := hkeeps s hs
    rw [← hlength] at hi hj
    obtain ⟨⟨t, moved⟩, later, hstep, -, himproves, hstays⟩ :=
      (delivers_takeStep_improves hsymm hlabels hanswers hfits hfeasible herrors hi hj).exists_run
        (matrix, turn) hfaithful
    exact ⟨t, moved, later, hstep, himproves, hstays⟩

/-- A search on two opposite samples, with the inner product as kernel, improves its objective. -/
theorem improves_throughout_opposite :
    check opposite = none ∧ 0 < fewSweeps.penalty ∧
      let entry := pairEntry (fun x y => some (SparseVector.dot x y)) opposite.toArray
      ∃ solution history after,
        (solve (.remembering entry drawInTurn) fewSweeps (opposite.map Sample.label)).run
            (.ofSize opposite.length 1, 0) = .ok (solution, after) ∧
        (solveHistory (.remembering entry drawInTurn) fewSweeps (opposite.map Sample.label)).run
            (.ofSize opposite.length 1, 0) = .ok ((solution, history), after) ∧
        history.IsChain (SameOr fun s t =>
          objective SparseVector.dot opposite s.alpha <
            objective SparseVector.dot opposite t.alpha) ∧
        ∀ s ∈ history, ∀ i j, i < opposite.length → j < opposite.length →
          ∀ (matrix : KernelMatrix ℚ) (turn : ℕ), matrix.Faithful entry →
            ∃ t moved later,
              (takeStep (.remembering entry drawInTurn) fewSweeps.penalty
                (opposite.map Sample.label) i j s).run (matrix, turn) = .ok ((t, moved), later) ∧
              (moved = true → objective SparseVector.dot opposite s.alpha <
                objective SparseVector.dot opposite t.alpha) ∧
              (moved = false → t = s) := by
  have hcheck : check opposite = none := by decide +kernel
  have hpenalty : 0 < fewSweeps.penalty := by decide +kernel
  exact ⟨hcheck, hpenalty, improves_throughout hcheck (SparseVector.dot_comm mul_comm) hpenalty
    fst_drawInTurn_lt 1 0⟩

end Smo
end Retrace
