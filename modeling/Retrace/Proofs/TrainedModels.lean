import Retrace.Trainer

/-!
# What is trained

A model that was trained is made from a solution on the samples of its dataset: its support vectors
are samples, and kernel, features and labels are those of the trainer and of the dataset.

Main results:

- Theorem `exists_solution_of_train`: a trained model is made from a solution.
- Theorem `exists_sample_of_support`: its support vectors are samples.
-/

namespace Retrace

/-- A trained model is made from a solution on the samples. -/
theorem Trainer.exists_solution_of_train {t after : Trainer} {occasion : Occasion} {d : Dataset}
    {m : Model} (h : t.train occasion d = (.ok m, after)) :
    ∃ solution, Search.solve t.kernel t.settings d.samples (t.drawsAt t.count) = .ok solution ∧
      m = .ofSolution t.kernel d solution
        (.trained Model.className d.record (t.recordAt t.count) occasion) := by
  cases hfault : t.settings.fault? with
  | some fault =>
      rw [train_of_invalid hfault] at h
      exact absurd (Prod.mk.inj h).1 (by simp)
  | none =>
      have hvalid : t.validate = .ok () := by rw [validate, hfault]
      rw [train, hvalid, Prod.mk.injEq] at h
      have hlearn := h.1
      rw [learn] at hlearn
      split at hlearn
      · simp at hlearn
      · rename_i solution hsolve
        exact ⟨solution, hsolve, (Except.ok.inj hlearn).symm⟩

/-- The support vectors of a trained model are samples. -/
theorem Trainer.exists_sample_of_support {t after : Trainer} {occasion : Occasion} {d : Dataset}
    {m : Model} (h : t.train occasion d = (.ok m, after)) {x : SparseVector Float}
    (hx : x ∈ m.supportVectors) : ∃ s ∈ d.samples, s.features = x := by
  obtain ⟨solution, -, rfl⟩ := exists_solution_of_train h
  simp only [Model.ofSolution, Model.supportEntries, List.mem_map, List.mem_filterMap] at hx
  obtain ⟨e, ⟨i, -, he⟩, rfl⟩ := hx
  split at he
  · rename_i s a hs ha
    rw [Option.some.injEq] at he
    exact ⟨s, List.mem_of_getElem? hs, by rw [← he]⟩
  · simp at he

end Retrace
