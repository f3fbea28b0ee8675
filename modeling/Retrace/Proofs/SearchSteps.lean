import Mathlib.Algebra.Order.Field.Rat
import Mathlib.Tactic.Linarith
import Retrace.Proofs.KernelMemory
import Retrace.Proofs.SearchHistory

/-!
# Steps of an exact search

Over exact rational numbers a search on accepted samples never breaks off, and each of its steps
either leaves everything as it is or moves two multipliers.  All that a move does is stated here
once.  What every move keeps is then kept in all states that a search passes through, whatever is
drawn and whatever the memory for the kernel values has forgotten.

Main results:

- Theorem `answers_remembering`: a memory answers with the values of the kernel.
- Theorem `delivers_solveHistory`: what every visit keeps holds in every state of a search.
- Theorem `delivers_takeStep`: a step leaves the state or makes a move.
- Theorem `exists_run_solveHistory`: on accepted samples the search ends well.
-/

namespace Retrace
namespace Smo

variable {α β γ σ τ : Type}

/-! ## Computations that come to a result -/

/-- Whether a computation comes to a result with a property from every state with an invariant, and
ends in such a state. -/
structure Delivers (holds : σ → Prop) (p : β → Prop) (x : Ask σ β) : Prop where
  exists_run : ∀ s, holds s → ∃ value s', x s = .ok (value, s') ∧ holds s' ∧ p value

section

variable {holds : σ → Prop} {p : β → Prop} {q : γ → Prop}

theorem delivers_pure {value : β} (h : p value) : Delivers holds p (pure value : Ask σ β) :=
  ⟨fun s hs => ⟨value, s, rfl, hs, h⟩⟩

/-- Computations that deliver one after the other deliver. -/
theorem Delivers.bind {x : Ask σ β} {f : β → Ask σ γ} (h : Delivers holds p x)
    (hnext : ∀ value, p value → Delivers holds q (f value)) : Delivers holds q (x >>= f) := by
  constructor
  intro s hs
  obtain ⟨value, t, hx, ht, hvalue⟩ := h.exists_run s hs
  have hrun : (x >>= f) s = x s >>= fun r => f r.1 r.2 := rfl
  rw [hrun, hx]
  exact (hnext value hvalue).exists_run t ht

/-- A computation whose result is known may be replaced by the result. -/
theorem Delivers.bind_eq {x : Ask σ β} {f : β → Ask σ γ} {value : β}
    (h : Delivers holds (· = value) x) (hnext : Delivers holds q (f value)) :
    Delivers holds q (x >>= f) := by
  apply h.bind
  intro found hfound
  rw [hfound]
  exact hnext

theorem Delivers.mono {p' : β → Prop} {x : Ask σ β} (h : Delivers holds p x)
    (hp : ∀ value, p value → p' value) : Delivers holds p' x := by
  constructor
  intro s hs
  obtain ⟨value, t, hx, ht, hvalue⟩ := h.exists_run s hs
  exact ⟨value, t, hx, ht, hp value hvalue⟩

/-- Reading a list within its length delivers the entry. -/
theorem delivers_at' {xs : List α} {i : Nat} {x : α} (h : xs[i]? = some x) :
    Delivers holds (· = x) (at' xs i) := by
  rw [at', h]
  exact delivers_pure rfl

end

/-- Whether a source answers with the entries of a square matrix and draws numbers below their
bound, from every state with an invariant. -/
structure Source.Answers [Scalar α] (holds : σ → Prop) (source : Source σ α)
    (value : Nat → Nat → α) (size : Nat) : Prop where
  entry : ∀ i j, i < size → j < size → Delivers holds (· = value i j) (source.entry i j)
  below : ∀ bound, 0 < bound → Delivers holds (· < bound) (source.below bound)

/-! ## Kernel values with a memory -/

/-- The entry of a kernel matrix for two samples by their numbers. -/
def pairEntry (value? : SparseVector α → SparseVector α → Option α) (samples : Array (Sample α))
    (place : Nat × Nat) : Option α :=
  match samples[place.1]?, samples[place.2]? with
  | some x, some y => value? x.features y.features
  | _, _ => none

/-- Entries of a matrix with a memory, and draws by `draw` from a state of their own. -/
def Source.remembering [Scalar α] (entry : Nat × Nat → Option α) (draw : Nat → τ → Nat × τ) :
    Source (KernelMatrix α × τ) α where
  entry i j := fun (matrix, draws) =>
    match matrix.request entry i j with
    | (some value, matrix) => .ok (value, (matrix, draws))
    | (none, _) => .error .outOfRange
  below bound := fun (matrix, draws) =>
    if bound = 0 then .error .emptyRange
    else
      let (n, draws) := draw bound draws
      .ok (n, (matrix, draws))

/-- The source of a trainer has its kernel values in such a memory. -/
theorem source_eq_remembering (kernel : Kernel) (samples : Array (Sample Float)) :
    Search.source kernel samples =
      .remembering (pairEntry kernel.value? samples) Draws.below := by
  have hentry : Search.entry kernel samples = pairEntry kernel.value? samples := by
    funext place
    unfold Search.entry pairEntry
    cases samples[place.1]? with
    | none => rfl
    | some x => cases samples[place.2]? <;> rfl
  unfold Search.source Source.remembering
  rw [hentry, Source.mk.injEq]
  constructor
  · funext i j s
    rcases s with ⟨matrix, draws⟩
    simp only
    rcases matrix.request (pairEntry kernel.value? samples) i j with ⟨found, after⟩
    cases found <;> rfl
  · rfl

/-- A memory answers with the values of the kernel, of the lesser sample and the greater one. -/
theorem answers_remembering_place [Scalar α] {entry : Nat × Nat → Option α}
    {value : Nat → Nat → α} {size : Nat}
    (hentry : ∀ i j, i < size → j < size → entry (KernelMatrix.place i j) = some (value i j))
    {draw : Nat → τ → Nat × τ}
    (hdraw : ∀ bound draws, 0 < bound → (draw bound draws).1 < bound) :
    (Source.remembering entry draw).Answers (fun s => s.1.Faithful entry) value size := by
  constructor
  · intro i j hi hj
    constructor
    rintro ⟨matrix, draws⟩ hfaithful
    have hvalue := hfaithful.fst_request i j
    have hkeeps := KernelMatrix.remembered_request i j hfaithful
    rcases hrequest : matrix.request entry i j with ⟨found, after⟩
    rw [hrequest] at hvalue hkeeps
    have hfound : found = some (value i j) := hvalue.trans (hentry i j hi hj)
    subst hfound
    exact ⟨value i j, (after, draws), by simp [Source.remembering, hrequest], hkeeps, rfl⟩
  · intro bound hbound
    constructor
    rintro ⟨matrix, draws⟩ hfaithful
    refine ⟨(draw bound draws).1, (matrix, (draw bound draws).2), ?_, hfaithful,
      hdraw bound draws hbound⟩
    simp [Source.remembering, Nat.pos_iff_ne_zero.1 hbound]

/-- A memory answers with the values of the kernel, which is symmetric. -/
theorem answers_remembering [Scalar α] {entry : Nat × Nat → Option α} {value : Nat → Nat → α}
    {size : Nat} (hentry : ∀ i j, i < size → j < size → entry (i, j) = some (value i j))
    (hsymm : ∀ i j, i < size → j < size → value i j = value j i) {draw : Nat → τ → Nat × τ}
    (hdraw : ∀ bound draws, 0 < bound → (draw bound draws).1 < bound) :
    (Source.remembering entry draw).Answers (fun s => s.1.Faithful entry) value size := by
  apply answers_remembering_place _ hdraw
  intro i j hi hj
  unfold KernelMatrix.place
  rcases Nat.le_total i j with hij | hji
  · rw [Nat.min_eq_left hij, Nat.max_eq_right hij, hentry i j hi hj]
  · rw [Nat.min_eq_right hji, Nat.max_eq_left hji, hentry j i hj hi, hsymm i j hi hj]

/-! ## Runs -/

/-- Whether a state has one multiplier and one error for every label. -/
structure State.Fits (labels : List α) (s : State α) : Prop where
  alpha : s.alpha.length = labels.length
  errors : s.errors.length = labels.length

/-- Two different samples with their labels, multipliers and errors. -/
structure Pair (labels : List α) (s : State α) (i j : Nat) where
  (yi yj ai aj ei ej : α)
  label_i : labels[i]? = some yi
  label_j : labels[j]? = some yj
  alpha_i : s.alpha[i]? = some ai
  alpha_j : s.alpha[j]? = some aj
  error_i : s.errors[i]? = some ei
  error_j : s.errors[j]? = some ej
  ne : i ≠ j

/-- Two different samples of a state that fits are a pair. -/
theorem State.Fits.exists_pair {labels : List α} {s : State α} (hs : s.Fits labels) {i j : Nat}
    (hi : i < labels.length) (hj : j < labels.length) (hne : i ≠ j) :
    Nonempty (Pair labels s i j) := by
  have hai : i < s.alpha.length := hs.alpha.symm ▸ hi
  have haj : j < s.alpha.length := hs.alpha.symm ▸ hj
  have hei : i < s.errors.length := hs.errors.symm ▸ hi
  have hej : j < s.errors.length := hs.errors.symm ▸ hj
  exact ⟨⟨_, _, _, _, _, _, List.getElem?_eq_getElem hi, List.getElem?_eq_getElem hj,
    List.getElem?_eq_getElem hai, List.getElem?_eq_getElem haj, List.getElem?_eq_getElem hei,
    List.getElem?_eq_getElem hej, hne⟩⟩

section

variable [Scalar α] {holds : σ → Prop} {source : Source σ α} {value : Nat → Nat → α} {size : Nat}
  {labels : List α}

/-- The state from the start fits the labels. -/
theorem State.fits_initial (labels : List α) : (State.initial labels).Fits labels := by
  constructor <;> simp [State.initial]

/-- Another sample is drawn. -/
theorem delivers_drawOther (h : source.Answers holds value size) {n i : Nat} (hi : i < n)
    (hn : 2 ≤ n) : Delivers holds (fun j => j < n ∧ i ≠ j) (drawOther source n i) := by
  unfold drawOther
  apply (h.below (n - 1) (by omega)).bind
  intro j hj
  apply delivers_pure
  split <;> omega

/-- Shifting the errors adds to each the change of its decision. -/
theorem delivers_shiftErrors (h : source.Answers holds value size) {i j : Nat} (hi : i < size)
    (hj : j < size) (deltaI deltaJ deltaB : α) {k : Nat} {errors : List α}
    (hsize : k + errors.length ≤ size) :
    Delivers holds
      (· = errors.mapIdx fun m e =>
        e + (deltaI * value i (k + m) + deltaJ * value j (k + m) + deltaB))
      (shiftErrors source i j deltaI deltaJ deltaB k errors) := by
  induction errors generalizing k with
  | nil => exact delivers_pure rfl
  | cons e rest ih =>
      rw [List.length_cons] at hsize
      unfold shiftErrors
      apply (h.entry i k hi (by omega)).bind_eq
      apply (h.entry j k hj (by omega)).bind_eq
      apply (ih (by omega)).bind_eq
      apply delivers_pure
      rw [List.mapIdx_cons]
      simp only [Nat.add_zero, Nat.add_assoc, Nat.add_comm 1]

variable {limits : SearchLimits α} {keeps : State α → Prop}

/-- The visit of a sample comes to a result with a property if that holds where nothing is to be
done, and every step comes to such a result that the sample may take with another one. -/
theorem delivers_visit (h : source.Answers holds value labels.length) (hlabels : 2 ≤ labels.length)
    {i : Nat} (hi : i < labels.length) {s : State α} (hs : s.Fits labels)
    {p : State α × Bool → Prop} (hstay : p (s, false))
    (hstep : ∀ (j : Nat) (q : Pair labels s i j), j < labels.length →
      violates limits q.yi q.ei q.ai = true →
      Delivers holds p (takeStep source limits.penalty labels i j s)) :
    Delivers holds p (visit source limits labels i s) := by
  have hyi := List.getElem?_eq_getElem hi
  have hai := List.getElem?_eq_getElem (hs.alpha.symm ▸ hi : i < s.alpha.length)
  have hei := List.getElem?_eq_getElem (hs.errors.symm ▸ hi : i < s.errors.length)
  unfold visit
  apply (delivers_at' hyi).bind_eq
  apply (delivers_at' hai).bind_eq
  apply (delivers_at' hei).bind_eq
  split
  · rename_i hviolates
    apply (delivers_drawOther h hi hlabels).bind
    intro j hj
    obtain ⟨q⟩ := hs.exists_pair hi hj.1 hj.2
    apply hstep j q hj.1
    rw [Option.some.inj (q.label_i.symm.trans hyi), Option.some.inj (q.alpha_i.symm.trans hai),
      Option.some.inj (q.error_i.symm.trans hei)]
    exact hviolates
  · exact delivers_pure hstay

/-- Whether the visit of a sample comes to a result from every state with a property, and keeps the
property. -/
def KeptByVisits (holds : σ → Prop) (source : Source σ α) (limits : SearchLimits α)
    (labels : List α) (keeps : State α → Prop) : Prop :=
  ∀ (s : State α) (i : Nat), i < labels.length → keeps s →
    Delivers holds (fun r => keeps r.1) (visit source limits labels i s)

variable (hvisits : KeptByVisits holds source limits labels keeps)

include hvisits

/-- What every visit keeps holds after each visit of a sweep. -/
theorem delivers_sweepHistory {i steps : Nat} (hsteps : i + steps ≤ labels.length) {s : State α}
    (hs : keeps s) (moved : Bool) :
    Delivers holds (fun r => keeps r.1.1 ∧ ∀ t ∈ r.2, keeps t)
      (sweepHistory source limits labels i steps s moved) := by
  induction steps generalizing i s moved with
  | zero => exact delivers_pure ⟨hs, by simp⟩
  | succ steps ih =>
      unfold sweepHistory
      apply (hvisits s i (by omega) hs).bind
      intro r hr
      apply (ih (by omega) hr (moved || r.2)).bind
      intro t ht
      apply delivers_pure
      refine ⟨ht.1, ?_⟩
      rw [List.forall_mem_cons]
      exact ⟨hr, ht.2⟩

/-- What every step keeps holds in all states of a search. -/
theorem delivers_searchHistory (sweeps : Nat) {s : State α} (hs : keeps s) (passes done : Nat) :
    Delivers holds (fun r => ∀ t ∈ r.2, keeps t)
      (searchHistory source limits labels sweeps s passes done) := by
  induction sweeps generalizing s passes done with
  | zero => exact delivers_pure (by simp)
  | succ sweeps ih =>
      unfold searchHistory
      split
      · apply (delivers_sweepHistory hvisits (by omega) hs false).bind
        intro r hr
        apply (ih hr.1 _ (done + 1)).bind
        intro t ht
        apply delivers_pure
        rw [List.forall_mem_append]
        exact ⟨hr.2, ht⟩
      · exact delivers_pure (by simp)

/-- A search whose visits come to results never breaks off, and what they keep holds in every state
of it if it holds in the first one. -/
theorem delivers_solveHistory (hinitial : keeps (.initial labels)) :
    Delivers holds (fun r => ∀ t ∈ r.2, keeps t) (solveHistory source limits labels) := by
  unfold solveHistory
  apply (delivers_searchHistory hvisits limits.maxSweeps hinitial 0 0).bind
  intro r hr
  apply delivers_pure
  rw [List.forall_mem_cons]
  exact ⟨hinitial, hr⟩

end

/-- There are accepted samples of both classes, so there are two. -/
theorem two_le_length_of_check [Scalar α] {samples : List (Sample α)} (h : check samples = none) :
    2 ≤ samples.length := by
  obtain ⟨-, ⟨x, hx, hpos⟩, y, hy, hneg⟩ := (check_eq_none_iff samples).1 h
  have hne : x ≠ y := by
    rintro rfl
    exact hneg hpos
  match samples, hx, hy with
  | [], hx, _ => simp at hx
  | [z], hx, hy => exact absurd ((List.mem_singleton.1 hx).trans (List.mem_singleton.1 hy).symm) hne
  | _ :: _ :: _, _, _ => simp

/-! ## Exact arithmetic -/

theorem larger_eq_max (x y : ℚ) : Scalar.larger x y = max x y := by
  unfold Scalar.larger
  by_cases h : x ≤ y
  · simp [h]
  · simp [h, (not_le.1 h).le]

theorem smaller_eq_min (x y : ℚ) : Scalar.smaller x y = min x y := by
  unfold Scalar.smaller
  by_cases h : y ≤ x
  · simp [h]
  · simp [h, (not_le.1 h).le]

/-- A value is brought between bounds that are in order. -/
theorem exists_clamp? {low high : ℚ} (h : low ≤ high) (x : ℚ) :
    ∃ y, Scalar.clamp? low high x = some y ∧ low ≤ y ∧ y ≤ high := by
  unfold Scalar.clamp?
  rw [if_pos h]
  by_cases hlow : x < low
  · exact ⟨low, by rw [if_pos hlow], le_refl low, h⟩
  · by_cases hhigh : high < x
    · exact ⟨high, by rw [if_neg hlow, if_pos hhigh], h, le_refl high⟩
    · exact ⟨x, by rw [if_neg hlow, if_neg hhigh], not_lt.1 hlow, not_lt.1 hhigh⟩

/-! ## Steps -/

/-- The curvature of the objective along the line on which two multipliers move. -/
def curvature (value : ℕ → ℕ → ℚ) (i j : ℕ) : ℚ :=
  2 * value i j - value i i - value j j

namespace Pair

variable {labels : List ℚ} {s : State ℚ} {i j : ℕ} (p : Pair labels s i j) (value : ℕ → ℕ → ℚ)
  (penalty : ℚ)

/-- The bounds of the second multiplier. -/
def bounds : ℚ × ℚ :=
  Smo.bounds penalty p.yi p.yj p.ai p.aj

/-- The first multiplier when the second one has moved. -/
def partner (target : ℚ) : ℚ :=
  p.ai + p.yi * p.yj * (p.aj - target)

/-- How the decision changes with the values of the first sample. -/
def deltaI (target : ℚ) : ℚ :=
  p.yi * (p.partner target - p.ai)

/-- How the decision changes with the values of the second sample. -/
def deltaJ (target : ℚ) : ℚ :=
  p.yj * (target - p.aj)

/-- The bias when the multipliers have moved. -/
def bias (target : ℚ) : ℚ :=
  newBias penalty (p.partner target) target
    (s.bias - p.ei - p.deltaI target * value i i - p.deltaJ target * value i j)
    (s.bias - p.ej - p.deltaI target * value i j - p.deltaJ target * value j j)

/-- The state when the second multiplier has moved to a value, and the first one with it. -/
def moved (target : ℚ) : State ℚ where
  alpha := (s.alpha.set i (p.partner target)).set j target
  bias := p.bias value penalty target
  errors := s.errors.mapIdx fun k e =>
    e + (p.deltaI target * value i k + p.deltaJ target * value j k +
      (p.bias value penalty target - s.bias))

/-- Whether a step moves the second multiplier to a value: the bounds leave room, the objective is
curved downwards, and its optimum, brought between the bounds, is not too near. -/
structure Moves (target : ℚ) : Prop where
  room : (p.bounds penalty).1 < (p.bounds penalty).2
  curved : curvature value i j < 0
  clamped : Scalar.clamp? (p.bounds penalty).1 (p.bounds penalty).2
    (p.aj - p.yj * (p.ei - p.ej) / curvature value i j) = some target
  far : leastMove ≤ Scalar.magnitude (target - p.aj)

end Pair

section

variable {holds : σ → Prop} {source : Source σ ℚ} {value : ℕ → ℕ → ℚ} {size : ℕ}

/-- A step on two samples leaves the state or makes a move. -/
theorem delivers_takeStep (h : source.Answers holds value size) {labels : List ℚ} {s : State ℚ}
    {i j : ℕ} (p : Pair labels s i j) (hi : i < size) (hj : j < size)
    (hsize : s.errors.length ≤ size) (penalty : ℚ) :
    Delivers holds
      (fun r => r = (s, false) ∨
        ∃ target, p.Moves value penalty target ∧ r = (p.moved value penalty target, true))
      (takeStep source penalty labels i j s) := by
  unfold takeStep
  apply (delivers_at' p.label_i).bind_eq
  apply (delivers_at' p.label_j).bind_eq
  apply (delivers_at' p.alpha_i).bind_eq
  apply (delivers_at' p.alpha_j).bind_eq
  apply (delivers_at' p.error_i).bind_eq
  apply (delivers_at' p.error_j).bind_eq
  rcases hbounds : Smo.bounds penalty p.yi p.yj p.ai p.aj with ⟨low, high⟩
  simp only
  -- the state stays without room, without curvature, and if the target is too near
  split
  · exact delivers_pure (.inl rfl)
  · rename_i hroom
    apply (h.entry i i hi hi).bind_eq
    apply (h.entry i j hi hj).bind_eq
    apply (h.entry j j hj hj).bind_eq
    split
    · exact delivers_pure (.inl rfl)
    · rename_i hcurved
      have hcurvature : (1 + 1) * value i j - value i i - value j j = curvature value i j := by
        unfold curvature
        norm_num
      have hlow : (p.bounds penalty).1 = low := congrArg Prod.fst hbounds
      have hhigh : (p.bounds penalty).2 = high := congrArg Prod.snd hbounds
      obtain ⟨target, hclamped, -⟩ := exists_clamp? (not_le.1 hroom).le
        (p.aj - p.yj * (p.ei - p.ej) / curvature value i j)
      have hsome : Scalar.clamp? low high (p.aj - p.yj * (p.ei - p.ej) /
          ((1 + 1) * value i j - value i i - value j j)) = some target := by
        rw [← hclamped, ← hcurvature]
      rw [hsome]
      simp only
      split
      · exact delivers_pure (.inl rfl)
      · rename_i hfar
        have hmoves : p.Moves value penalty target := by
          refine ⟨?_, ?_, ?_, not_lt.1 hfar⟩
          · rw [hlow, hhigh]
            exact not_le.1 hroom
          · rw [← hcurvature]
            exact not_le.1 hcurved
          · rw [hlow, hhigh, hclamped]
        apply (delivers_shiftErrors h hi hj _ _ _ (by rw [Nat.zero_add]; exact hsize)).bind_eq
        apply delivers_pure
        refine .inr ⟨target, hmoves, ?_⟩
        simp only [Nat.zero_add]
        rfl

theorem Pair.fits_moved {labels : List ℚ} {s : State ℚ} {i j : ℕ} (p : Pair labels s i j)
    (hs : s.Fits labels) (penalty target : ℚ) : (p.moved value penalty target).Fits labels := by
  constructor
  · simp [moved, hs.alpha]
  · simp [moved, hs.errors]

section

variable {labels : List ℚ} {limits : SearchLimits ℚ} {keeps : State ℚ → Prop}

/-- Whether a property of states is kept by every move. -/
def KeptByMoves (value : ℕ → ℕ → ℚ) (penalty : ℚ) (labels : List ℚ)
    (keeps : State ℚ → Prop) : Prop :=
  ∀ {s : State ℚ} {i j : ℕ} (p : Pair labels s i j) {target : ℚ}, s.Fits labels → keeps s →
    p.Moves value penalty target → keeps (p.moved value penalty target)

/-- The visit of a sample leaves the state or makes a move. -/
theorem delivers_visit_moves (h : source.Answers holds value labels.length)
    (hlabels : 2 ≤ labels.length) {i : ℕ} (hi : i < labels.length) {s : State ℚ}
    (hs : s.Fits labels) :
    Delivers holds
      (fun r => r.1 = s ∨ ∃ (j : ℕ) (p : Pair labels s i j) (target : ℚ),
        p.Moves value limits.penalty target ∧ r.1 = p.moved value limits.penalty target)
      (visit source limits labels i s) := by
  apply delivers_visit h hlabels hi hs (.inl rfl)
  intro j p hj _
  apply (delivers_takeStep h p hi hj hs.errors.le limits.penalty).mono
  rintro r (rfl | ⟨target, htarget, rfl⟩)
  · exact .inl rfl
  · exact .inr ⟨j, p, target, htarget, rfl⟩

/-- What every move keeps is kept by the visit of a sample. -/
theorem keptByVisits_of_moves (h : source.Answers holds value labels.length)
    (hlabels : 2 ≤ labels.length) (hmoves : KeptByMoves value limits.penalty labels keeps) :
    KeptByVisits holds source limits labels (fun s => s.Fits labels ∧ keeps s) := by
  intro s i hi hs
  apply (delivers_visit_moves h hlabels hi hs.1).mono
  rintro r (hsame | ⟨j, p, target, htarget, hmoved⟩)
  · rw [hsame]
    exact hs
  · rw [hmoved]
    exact ⟨p.fits_moved hs.1 _ _, hmoves p hs.1 hs.2 htarget⟩

end

end

/-! ## Accepted samples -/

/-- Labels that are accepted are one and minus one. -/
theorem label_of_check {samples : List (Sample ℚ)} (h : check samples = none) :
    ∀ y ∈ samples.map Sample.label, y = 1 ∨ y = -1 := by
  intro y hy
  obtain ⟨x, hx, rfl⟩ := List.mem_map.1 hy
  have hlabel := ((check_eq_none_iff samples).1 h).1 x hx
  rw [beq_iff_eq, beq_iff_eq] at hlabel
  exact hlabel

/-- The search on accepted samples ends well whatever is drawn; what every move keeps holds in all
states that it passes through, and the solution is read off the last one. -/
theorem exists_run_solveHistory {samples : List (Sample ℚ)} (hcheck : check samples = none)
    {entry : ℕ × ℕ → Option ℚ} {value : ℕ → ℕ → ℚ}
    (hentry : ∀ i j, i < samples.length → j < samples.length →
      entry (i, j) = some (value i j))
    (hsymm : ∀ i j, i < samples.length → j < samples.length → value i j = value j i)
    {draw : ℕ → τ → ℕ × τ} (hdraw : ∀ bound draws, 0 < bound → (draw bound draws).1 < bound)
    {limits : SearchLimits ℚ} {keeps : State ℚ → Prop}
    (hmoves : KeptByMoves value limits.penalty (samples.map Sample.label) keeps)
    (hinitial : keeps (.initial (samples.map Sample.label))) (capacity : ℕ) (draws : τ) :
    ∃ solution history last after,
      (solve (.remembering entry draw) limits (samples.map Sample.label)).run
          (.ofSize samples.length capacity, draws) = .ok (solution, after) ∧
      (solveHistory (.remembering entry draw) limits (samples.map Sample.label)).run
          (.ofSize samples.length capacity, draws) = .ok ((solution, history), after) ∧
      (∀ s ∈ history, s.Fits (samples.map Sample.label) ∧ keeps s) ∧
      history.getLast? = some last ∧ solution.alpha = last.alpha ∧ solution.bias = last.bias ∧
      solution.support = support last.alpha := by
  have hlength : (samples.map Sample.label).length = samples.length := List.length_map ..
  have hanswers := answers_remembering hentry hsymm hdraw
  rw [← hlength] at hanswers
  have hvisits := keptByVisits_of_moves hanswers (hlength.symm ▸ two_le_length_of_check hcheck)
    hmoves
  have hdelivers := delivers_solveHistory hvisits ⟨State.fits_initial _, hinitial⟩
  obtain ⟨⟨solution, history⟩, after, hrun, -, hkeeps⟩ := hdelivers.exists_run
    (.ofSize samples.length capacity, draws) (KernelMatrix.faithful_ofSize _ _ _)
  obtain ⟨last, hlast, halpha, hbias, hsupport⟩ :=
    (ensures_solveHistory ..).of_run _ _ _ hrun
  exact ⟨solution, history, last, after, run_solve_of_history _ _ _ hrun, hrun, hkeeps, hlast,
    halpha, hbias, hsupport⟩

end Smo
end Retrace
