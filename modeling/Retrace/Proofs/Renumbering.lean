import Retrace.Model
import Retrace.Proofs.FittingSamples
import Retrace.Trainer

/-!
# Samples in the numbering of a model

A filter numbers the features that it keeps anew, and a model knows the new numbers.  A sample in
the numbering of its file says the same to a model where the features that are kept are the first
ones: then their numbers stay, and a kernel by inner products does not see the others.

Main results:

- Theorem `accuracy_of_evaluate`: the accuracy of a model is its share of right predictions.
- Theorem `rightShare_renumbered`: where the first features are kept the share is the same in the
  numbering of the model.
-/

namespace Retrace

/-! ## Numberings -/

/-- The numbers of the features that a threshold keeps; all of them without a threshold. -/
def FeatureMap.keptIds (m : FeatureMap) : Option UInt64 → List Nat
  | none => m.features.map FeatureInfo.id
  | some threshold => (m.features.filter fun f => threshold.toNat ≤ f.count).map FeatureInfo.id

/-- A sample that stores the listed features alone, by their places in the list. -/
def Sample.renumbered (ids : List Nat) (s : Sample Float) : Sample Float :=
  { s with features := s.features.retain ids.idxOf? }

/-- In a range a number is at its own place. -/
theorem idxOf?_range (k i : Nat) : (List.range k).idxOf? i = if i < k then some i else none := by
  split
  · rename_i hlt
    rw [List.idxOf?_eq_some_iff]
    exact ⟨by simpa using hlt, by simp, fun j hj => by simp; omega⟩
  · rename_i hge
    rw [List.idxOf?_eq_none_iff]
    simpa using hge

/-- Without a threshold the features are kept in their places. -/
theorem FeatureMap.keptIds_observe_none (names : List String) (samples : List (Sample Float)) :
    (observe names samples).keptIds none = List.range names.length := by
  apply List.ext_getElem
  · simp [keptIds, observe]
  · intro i h₁ h₂
    simp only [keptIds, observe, List.getElem_map, List.getElem_mapIdx, List.getElem_range]
    generalize valuesOf (storedEntries samples) i = values
    cases values <;> rfl

namespace SparseVector

/-- The index of an entry is an index of the vector. -/
theorem index_mem_of_mem_entries {v : SparseVector Float} {e : Nat × Float} (h : e ∈ v.entries) :
    e.1 ∈ v.indices :=
  (List.of_mem_zip h).1

/-- The entries of a well-formed vector have its indices. -/
theorem map_fst_entries {v : SparseVector Float} (h : v.WellFormed) :
    v.entries.map Prod.fst = v.indices := by
  rw [entries, List.map_fst_zip]
  exact Nat.le_of_eq h.1

/-- The entries of a well-formed vector stand in order. -/
theorem pairwise_entries {v : SparseVector Float} (h : v.WellFormed) :
    v.entries.Pairwise fun a b => a.1 ≤ b.1 := by
  rw [← List.pairwise_map, map_fst_entries h]
  exact h.2

theorem entries_ofEntries_mergeSort (entries : List (Nat × Float)) :
    (ofEntries entries).entries = entries.mergeSort fun a b => a.1 ≤ b.1 := by
  simp only [ofEntries, SparseVector.entries]
  exact (List.zip_of_prod rfl rfl).symm

/-- Entries in order make the vector that has them. -/
theorem entries_ofEntries {entries : List (Nat × Float)}
    (h : entries.Pairwise fun a b => a.1 ≤ b.1) : (ofEntries entries).entries = entries := by
  rw [entries_ofEntries_mergeSort]
  exact List.mergeSort_of_pairwise (h.imp fun hab => by simpa using hab)

/-- Keeping the first features in their places keeps their entries as they are. -/
theorem entries_retain_range {v : SparseVector Float} (h : v.WellFormed) (k : Nat) :
    (v.retain (List.range k).idxOf?).entries = v.entries.filter fun e => e.1 < k := by
  have hfilter : (v.entries.filterMap fun e => ((List.range k).idxOf? e.1).map fun index =>
      (index, e.2)) = v.entries.filter fun e => e.1 < k := by
    rw [← List.filterMap_eq_filter]
    congr 1
    funext e
    rw [idxOf?_range]
    by_cases he : e.1 < k <;> simp [he, Option.guard]
  rw [retain, hfilter, entries_ofEntries]
  exact (pairwise_entries h).filter _

/-- A well-formed vector is made of its entries. -/
theorem ofEntries_entries {v : SparseVector Float} (h : v.WellFormed) :
    ofEntries v.entries = v := by
  have hsorted : (v.entries.mergeSort fun a b => a.1 ≤ b.1) = v.entries :=
    List.mergeSort_of_pairwise ((pairwise_entries h).imp fun hab => by simpa using hab)
  simp only [ofEntries, hsorted]
  rw [map_fst_entries h, entries, List.map_snd_zip (Nat.le_of_eq h.1.symm)]

/-- A vector that stores first features alone stays itself. -/
theorem retain_range_of_lt {v : SparseVector Float} (h : v.WellFormed) {k : Nat}
    (hlt : ∀ i ∈ v.indices, i < k) : v.retain (List.range k).idxOf? = v := by
  have hentries := entries_retain_range h k
  rw [List.filter_eq_self.2 fun e he => by simpa using hlt e.1 (index_mem_of_mem_entries he)]
    at hentries
  rw [← ofEntries_entries (wellFormed_retain v _), hentries, ofEntries_entries h]

/-- Entries behind all of another vector add nothing to an inner product. -/
theorem dotFrom_filter {k : Nat} (sum : Float) (xs ys : List (Nat × Float))
    (hxs : ∀ e ∈ xs, e.1 < k) (hys : ys.Pairwise fun a b => a.1 ≤ b.1) :
    dotFrom sum xs (ys.filter fun e => e.1 < k) = dotFrom sum xs ys := by
  fun_induction dotFrom sum xs ys with
  | case1 sum ys => rw [dotFrom]
  | case2 sum x xs => rw [List.filter_nil, dotFrom]
  | case3 sum a xs j b ys ih =>
      have hj : j < k := hxs (j, a) List.mem_cons_self
      rw [List.filter_cons_of_pos (by simpa using hj), dotFrom, if_pos rfl]
      exact ih (fun e he => hxs e (List.mem_cons_of_mem _ he)) hys.of_cons
  | case4 sum i a xs j b ys hne hlt ih =>
      have hih := ih (fun e he => hxs e (List.mem_cons_of_mem _ he)) hys
      rw [← hih]
      by_cases hj : j < k
      · rw [List.filter_cons_of_pos (by simpa using hj), dotFrom, if_neg hne, if_pos hlt]
      · -- the other entries are behind this one, so none of them is kept
        have hnone : ((j, b) :: ys).filter (fun e => e.1 < k) = [] := by
          rw [List.filter_eq_nil_iff]
          intro e he
          rcases List.mem_cons.1 he with rfl | he
          · simpa using hj
          · have := List.rel_of_pairwise_cons hys he
            simp only [decide_eq_true_eq]
            omega
        rw [hnone]
        cases xs <;> simp [dotFrom]
  | case5 sum i a xs j b ys hne hge ih =>
      have hi : i < k := hxs (i, a) List.mem_cons_self
      rw [List.filter_cons_of_pos (by simp; omega), dotFrom, if_neg hne, if_neg hge]
      exact ih hxs hys.of_cons

/-- A vector of first features has the same inner product with what another one keeps of them. -/
theorem dot_retain_range {x v : SparseVector Float} {k : Nat} (hx : ∀ i ∈ x.indices, i < k)
    (hv : v.WellFormed) : x.dot (v.retain (List.range k).idxOf?) = x.dot v := by
  rw [dot, entries_retain_range hv]
  exact dotFrom_filter 0 _ _ (fun e he => hx e.1 (index_mem_of_mem_entries he))
    (pairwise_entries hv)

end SparseVector

/-! ## Predictions -/

/-- Whether a kernel is a function of the inner product. -/
def Kernel.isByProduct : Kernel → Bool
  | .rbf _ => false
  | _ => true

/-- A kernel does not see features beyond those of its support, unless it measures distances. -/
theorem Kernel.value?_retain_range {kernel : Kernel} {x v : SparseVector Float} {k : Nat}
    (hx : ∀ i ∈ x.indices, i < k) (hv : v.WellFormed)
    (hsees : kernel.isByProduct = true ∨ ∀ i ∈ v.indices, i < k) :
    kernel.value? x (v.retain (List.range k).idxOf?) = kernel.value? x v := by
  rcases hsees with hproduct | hlt
  · have hdot := SparseVector.dot_retain_range hx hv
    cases kernel with
    | linear => rw [value?, value?, hdot]
    | rbf gamma => simp [isByProduct] at hproduct
    | polynomial degree gamma coef0 =>
        rw [value?, value?, polynomialValue, polynomialValue, hdot]
  · rw [SparseVector.retain_range_of_lt hv hlt]

namespace Model

/-- Whether a model predicts the label of a sample. -/
def isRight (m : Model) (s : Sample Float) : Bool :=
  (m.predict? s.features).any fun p => labelName p.label == labelName s.label

/-- The share of samples whose label a model predicts. -/
def rightShare (m : Model) (samples : List (Sample Float)) : Float :=
  Confusion.ratio (.ofNat (samples.countP m.isRight)) (.ofNat samples.length)

/-- Whether a model says the same of samples if these store the listed features alone, by their
places in the list: the list has the first features, and what else is stored is not seen. -/
structure SeesInPlace (m : Model) (ids : List Nat) (samples : List (Sample Float)) : Prop where
  first : ids = List.range ids.length
  seen : ∀ s ∈ samples, m.kernel.isByProduct = true ∨ ∀ i ∈ s.features.indices, i < ids.length

/-- Kernels with the same values give the same terms. -/
theorem terms?_congr {value? other? : SparseVector Float → Option Float}
    {entries : List (SparseVector Float × Float)} (h : ∀ e ∈ entries, value? e.1 = other? e.1) :
    terms? value? entries = terms? other? entries := by
  induction entries with
  | nil => rfl
  | cons e rest ih =>
      rw [List.forall_mem_cons] at h
      rw [terms?, terms?, h.1, ih h.2]

/-- Where the first features are kept, a sample is labelled as it stands. -/
theorem predict?_renumbered {m : Model} {ids : List Nat} {s : Sample Float}
    (hids : ids = List.range ids.length)
    (hsupport : ∀ x ∈ m.supportVectors, ∀ i ∈ x.indices, i < ids.length)
    (hs : s.features.WellFormed)
    (hsees : m.kernel.isByProduct = true ∨ ∀ i ∈ s.features.indices, i < ids.length) :
    m.predict? (s.renumbered ids).features = m.predict? s.features := by
  have hterms := @terms?_congr (fun x => m.kernel.value? x (s.renumbered ids).features)
    (fun x => m.kernel.value? x s.features) (m.supportVectors.zip m.coefficients) <| by
      intro e he
      simp only [Sample.renumbered]
      rw [hids]
      exact Kernel.value?_retain_range (hsupport e.1 (List.of_mem_zip he).1) hs hsees
  rw [predict?, predict?, decision?, decision?, weigh?, weigh?, hterms]

/-- Where the first features are kept the share of right predictions is the same in the numbering
of the model. -/
theorem rightShare_renumbered {m : Model} {ids : List Nat} {samples : List (Sample Float)}
    (hsupport : ∀ x ∈ m.supportVectors, ∀ i ∈ x.indices, i < ids.length)
    (hsamples : ∀ s ∈ samples, s.features.WellFormed) (h : m.SeesInPlace ids samples) :
    m.rightShare (samples.map (Sample.renumbered ids)) = m.rightShare samples := by
  have hright : ∀ s ∈ samples, m.isRight (s.renumbered ids) = m.isRight s := by
    intro s hs
    rw [isRight, isRight, predict?_renumbered h.first hsupport (hsamples s hs) (h.seen s hs)]
    rfl
  rw [rightShare, rightShare, List.length_map, List.countP_map]
  congr 2
  apply List.countP_congr
  intro s hs
  rw [Function.comp_apply, hright s hs]

/-! ## Accuracy -/

/-- Labels have one name if they have one sign. -/
theorem labelName_beq (a b : Float) :
    (labelName a == labelName b) = (decide (0 < a) == decide (0 < b)) := by
  by_cases ha : 0 < a <;> by_cases hb : 0 < b <;> simp [labelName, ha, hb]

end Model

namespace Confusion

/-- A sample adds one to the total, and one to the right ones if it was called what it is. -/
theorem counts_add (c : Confusion) (predicted actual : Bool) :
    (c.add predicted actual).truePositives + (c.add predicted actual).trueNegatives =
        c.truePositives + c.trueNegatives + (if predicted == actual then 1 else 0) ∧
      (c.add predicted actual).total = c.total + 1 := by
  constructor
  · cases predicted <;> cases actual <;> simp [add] <;> ac_rfl
  · cases predicted <;> cases actual <;> simp only [add, total] <;> ac_rfl

/-- So do samples one after the other. -/
theorem counts_foldl {β : Type} (predicted actual : β → Bool) (entries : List β) (c : Confusion) :
    let counted := entries.foldl (fun counts e => counts.add (predicted e) (actual e)) c
    counted.truePositives + counted.trueNegatives = c.truePositives + c.trueNegatives +
        .ofNat (entries.countP fun e => predicted e == actual e) ∧
      counted.total = c.total + .ofNat entries.length := by
  induction entries generalizing c with
  | nil => simp
  | cons e rest ih =>
      have hadd := counts_add c (predicted e) (actual e)
      have hrest := ih (c.add (predicted e) (actual e))
      simp only [List.foldl_cons] at hrest ⊢
      rw [hrest.1, hrest.2, hadd.1, hadd.2, List.countP_cons, List.length_cons]
      constructor
      · split
        · simp only [UInt64.ofNat_add]
          ac_rfl
        · simp
      · simp only [UInt64.ofNat_add]
        ac_rfl

end Confusion

namespace Model

/-- Predictions are made sample by sample. -/
theorem predictAll_eq_ok {m : Model} {samples : List (Sample Float)}
    {predictions : List Prediction} (h : m.predictAll samples = .ok predictions) :
    predictions.length = samples.length ∧
      ∀ e ∈ predictions.zip samples, m.predict? e.2.features = some e.1 := by
  induction samples generalizing predictions with
  | nil =>
      rw [predictAll, Except.ok.injEq] at h
      simp [← h]
  | cons s rest ih =>
      rw [predictAll] at h
      cases hp : m.predict? s.features with
      | none => simp [hp] at h
      | some p =>
          cases hrest : m.predictAll rest with
          | error e => simp [hp, hrest, Except.map] at h
          | ok more =>
              simp only [hp, hrest, Except.map, Except.ok.injEq] at h
              obtain ⟨hlength, hall⟩ := ih hrest
              rw [← h]
              refine ⟨by simp [hlength], ?_⟩
              rw [List.zip_cons_cons, List.forall_mem_cons]
              exact ⟨hp, hall⟩

/-- The accuracy of a model on samples is its share of right predictions. -/
theorem accuracy_of_evaluate {m : Model} {samples : List (Sample Float)} {counts : Confusion}
    (h : m.evaluate samples = .ok counts) : counts.accuracy = m.rightShare samples := by
  rw [evaluate] at h
  cases hpredictions : m.predictAll samples with
  | error e => simp [hpredictions, Except.map] at h
  | ok predictions =>
      simp only [hpredictions, Except.map, Except.ok.injEq] at h
      obtain ⟨hlength, hall⟩ := predictAll_eq_ok hpredictions
      have hcounts := Confusion.counts_foldl (fun e : Prediction × Sample Float =>
        decide (0 < e.1.label)) (fun e => decide (0 < e.2.label)) (predictions.zip samples) .empty
      simp only [h] at hcounts
      have hright : (predictions.zip samples).countP
          (fun e => decide (0 < e.1.label) == decide (0 < e.2.label)) =
            samples.countP m.isRight := by
        have hsecond : (predictions.zip samples).map Prod.snd = samples :=
          List.map_snd_zip (Nat.le_of_eq hlength.symm)
        rw [← hsecond, List.countP_map, hsecond]
        apply List.countP_congr
        intro e he
        rw [Function.comp_apply, isRight, hall e he, Option.any_some, labelName_beq]
      rw [Confusion.accuracy, hcounts.1, hcounts.2, hright, List.length_zip, hlength, Nat.min_self,
        rightShare]
      simp [Confusion.empty, Confusion.total]

end Model
end Retrace
