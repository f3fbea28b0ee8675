import Retrace.Trainer

/-!
# What the search comes to

A search that ends well has one multiplier for every sample: no step adds or removes one.  So the
samples that it finds to be support vectors are samples.

Main results:

- Theorem `Smo.ensures_solve`: a solution has a multiplier for every label, and its support is among
  the labels.
- Theorem `Search.lt_length_of_support`: the support of a solution on samples is among the samples.
-/

namespace Retrace
namespace Smo

variable {α σ β γ : Type}

/-- Whether every result that a computation comes to has a property, from whatever state. -/
structure Ensures (p : β → Prop) (x : Ask σ β) : Prop where
  of_run : ∀ s value s', x s = .ok (value, s') → p value

variable {p : β → Prop} {q : γ → Prop}

theorem ensures_pure {value : β} (h : p value) : Ensures p (pure value : Ask σ β) := by
  refine ⟨fun s found s' hfound => ?_⟩
  have hvalue : value = found := (Prod.mk.inj (Except.ok.inj hfound)).1
  exact hvalue ▸ h

theorem ensures_throw (b : Breach) : Ensures p (throw b : Ask σ β) :=
  ⟨fun _ _ _ h => nomatch h⟩

theorem ensures_true (x : Ask σ β) : Ensures (fun _ => True) x :=
  ⟨fun _ _ _ _ => trivial⟩

/-- What follows a computation may rely on what that ensures. -/
theorem Ensures.bind {x : Ask σ β} {f : β → Ask σ γ} (h : Ensures p x)
    (hnext : ∀ value, p value → Ensures q (f value)) : Ensures q (x >>= f) := by
  refine ⟨fun s found s' hfound => ?_⟩
  have hrun : (x >>= f) s = x s >>= fun r => f r.1 r.2 := rfl
  rw [hrun] at hfound
  cases hx : x s with
  | error b => simp [hx, Bind.bind, Except.bind] at hfound
  | ok r =>
      rw [hx] at hfound
      exact (hnext r.1 (h.of_run s r.1 r.2 hx)).of_run r.2 found s' hfound

/-- What follows a computation that is only asked for a value. -/
theorem Ensures.after {x : Ask σ β} {f : β → Ask σ γ} (hnext : ∀ value, Ensures q (f value)) :
    Ensures q (x >>= f) :=
  (ensures_true x).bind fun value _ => hnext value

/-- A choice ensures what both ways ensure. -/
theorem ensures_ite {c : Prop} [Decidable c] {x y : Ask σ β} (h : Ensures p x)
    (h' : Ensures p y) : Ensures p (if c then x else y) := by
  split
  · exact h
  · exact h'

/-! ## The number of multipliers -/

section

variable [Scalar α] (source : Source σ α) (limits : SearchLimits α) (labels : List α)

/-- A step keeps the number of multipliers. -/
theorem ensures_takeStep (penalty : α) (i j : Nat) (s : State α) :
    Ensures (fun r => r.1.alpha.length = s.alpha.length)
      (takeStep source penalty labels i j s) := by
  refine .after fun yi => .after fun yj => .after fun ai => .after fun aj => .after fun ei =>
    .after fun ej => ?_
  refine ensures_ite (ensures_pure rfl) ?_
  refine .after fun kii => .after fun kij => .after fun kjj => ?_
  refine ensures_ite (ensures_pure rfl) ?_
  split
  · exact ensures_throw _
  · refine ensures_ite (ensures_pure rfl) ?_
    exact .after fun errors => ensures_pure (by simp)

/-- A visit keeps the number of multipliers. -/
theorem ensures_visit (i : Nat) (s : State α) :
    Ensures (fun r => r.1.alpha.length = s.alpha.length) (visit source limits labels i s) := by
  refine .after fun yi => .after fun ai => .after fun ei => ?_
  exact ensures_ite (.after fun j => ensures_takeStep ..) (ensures_pure rfl)

/-- A sweep keeps the number of multipliers. -/
theorem ensures_sweepFrom (i steps : Nat) (s : State α) (moved : Bool) :
    Ensures (fun r => r.1.alpha.length = s.alpha.length)
      (sweepFrom source limits labels i steps s moved) := by
  induction steps generalizing i s moved with
  | zero => exact ensures_pure rfl
  | succ steps ih =>
      refine (ensures_visit source limits labels i s).bind fun r hr => ?_
      rw [← hr]
      exact ih ..

/-- Any number of sweeps keeps the number of multipliers. -/
theorem ensures_search (sweeps : Nat) (s : State α) (passes done : Nat) :
    Ensures (fun r => r.1.alpha.length = s.alpha.length)
      (search source limits labels sweeps s passes done) := by
  induction sweeps generalizing s passes done with
  | zero => exact ensures_pure rfl
  | succ sweeps ih =>
      rw [search]
      refine ensures_ite ?_ (ensures_pure rfl)
      refine (ensures_sweepFrom source limits labels 0 labels.length s false).bind fun r hr => ?_
      rw [← hr]
      exact ih ..

/-- Support stands among the multipliers. -/
theorem lt_length_of_mem_support {alpha : List α} {i : Nat} (h : i ∈ support alpha) :
    i < alpha.length :=
  List.mem_range.1 (List.mem_filter.1 h).1

/-- A solution has a multiplier for every label, and its support is among the labels. -/
theorem ensures_solve :
    Ensures (fun r => r.alpha.length = labels.length ∧ ∀ i ∈ r.support, i < labels.length)
      (solve source limits labels) := by
  refine (ensures_search source limits labels _ (.initial labels) 0 0).bind fun r hr => ?_
  have hlength : r.1.alpha.length = labels.length := by
    rw [hr, State.initial, List.length_map]
  exact ensures_pure ⟨hlength, fun i hi => hlength ▸ lt_length_of_mem_support hi⟩

end

end Smo

/-- The support of a solution on samples is among the samples. -/
theorem Search.lt_length_of_support {kernel : Kernel} {settings : Settings}
    {samples : List (Sample Float)} {draws : Draws} {solution : Solution Float}
    (h : solve kernel settings samples draws = .ok solution) :
    ∀ i ∈ solution.support, i < samples.length := by
  simp only [solve] at h
  split at h
  · simp at h
  · split at h
    · rename_i found after hfound
      have hsupport := ((Smo.ensures_solve ..).of_run _ _ _ hfound).2
      rw [← Except.ok.inj h]
      simpa using hsupport
    · simp at h

end Retrace
