import Retrace.Proofs.JsonNesting
import Retrace.Proofs.PassedEntries

/-!
# Loaded models and what they decide

A vector that a program builds has a value for every index and its indices in order.  A vector that
is read from a file need not: only its indices are words, for the numbers of indices and values are
not compared and nothing is sorted.  So a loaded model whose kernel asks for distances fails on some
vectors that a program builds if one of its support vectors lacks values, and only then.

Main results:

- Theorem `ModelFile.hasWords_of_load`: the indices of the vectors of a loaded model are words.
- Theorem `Model.decides_iff`: which models decide on every vector that a program builds.
- Theorem `ModelFile.decides_iff_of_load`: which loaded models decide on every vector.
-/

namespace Retrace

/-! ## What is read -/

/-- What every item that can be read has, all items of a list have. -/
theorem Json.forall_of_each? {β : Type} {reader : Json → Option β} {p : β → Prop}
    (h : ∀ j b, reader j = some b → p b) {items : List Json} {bs : List β}
    (hread : each? reader items = some bs) : ∀ b ∈ bs, p b := by
  induction items generalizing bs with
  | nil =>
      rw [each?, Option.some.injEq] at hread
      simp [← hread]
  | cons j rest ih =>
      rw [each?] at hread
      split at hread
      · rename_i b more hfirst hmore
        rw [← Option.some.inj hread, List.forall_mem_cons]
        exact ⟨h j b hfirst, ih hmore⟩
      · simp at hread

/-- A number that is read is within its bound. -/
theorem Json.le_of_nat? {bound n : Nat} {j : Json} (h : j.nat? bound = some n) : n ≤ bound := by
  unfold nat? at h
  split at h
  · simp only [Option.ite_none_right_eq_some, Option.some.injEq] at h
    exact h.2.2 ▸ h.2.1
  · simp at h

/-- Whether the indices of a vector are words. -/
def SparseVector.HasWords (v : SparseVector Float) : Prop :=
  ∀ i ∈ v.indices, i < UInt64.size

/-- The indices of a vector that is read are words. -/
theorem SparseVector.hasWords_of_decode {depth : Nat} {j : Json} {v : SparseVector Float}
    (h : decode depth j = some v) : v.HasWords := by
  unfold decode at h
  split at h
  · split at h
    · split at h
      · rename_i indices values hindices hvalues
        rw [← Option.some.inj h]
        obtain ⟨items, -, hitems⟩ := Option.bind_eq_some_iff.1 hindices
        exact Json.forall_of_each?
          (fun j n hn => Nat.lt_of_le_sub_one (by decide) (Json.le_of_nat? hn)) hitems
      · simp at h
    · simp at h
  · simp at h

theorem Model.hasWords_of_read {depth : Nat} {j : Json} {m : Model} (h : read depth j = some m) :
    ∀ x ∈ m.supportVectors, x.HasWords := by
  cases depth with
  | zero => simp [read] at h
  | succ depth =>
      rw [read] at h
      split at h
      · simp only [Option.bind_eq_bind, Option.bind_eq_some_iff, Option.pure_def,
          Option.some.injEq] at h
        obtain ⟨kernel, -, vectors, hvectors, coefficients, -, bias, -, indices, -, features, -,
          labels, -, record, -, rfl⟩ := h
        unfold readVectors readList at hvectors
        split at hvectors
        · simp at hvectors
        · obtain ⟨items, -, hitems⟩ := Option.bind_eq_some_iff.1 hvectors
          exact Json.forall_of_each? (fun _ _ => SparseVector.hasWords_of_decode) hitems
      · simp at h

namespace ModelFile

theorem hasWords_of_decode {depth : Nat} {j : Json} {f : ModelFile} (h : decode depth j = some f) :
    ∀ x ∈ f.model.supportVectors, x.HasWords := by
  cases depth with
  | zero => simp [decode] at h
  | succ depth =>
      rw [decode] at h
      split at h
      · simp only [Option.bind_eq_bind, Option.bind_eq_some_iff, Option.pure_def,
          Option.some.injEq] at h
        obtain ⟨version, -, library, -, savedAt, -, model, hmodel, rfl⟩ := h
        exact Model.hasWords_of_read hmodel
      · simp at h

/-- What a text is by a reader, the reader read. -/
theorem exists_reader_of_decodeText {β : Type} {reader : Nat → Json → Option β}
    {refusal : Nat → Json → Option ExtractionFault} {s : List Char} {b : β}
    (h : decodeText reader refusal s = .ok b) : ∃ j, reader Json.deepest j = some b := by
  simp only [decodeText] at h
  split at h
  · rename_i found hread hended
    exact ⟨_, hread.trans (congrArg some (Except.ok.inj h))⟩
  · split at h <;> simp at h

/-- The indices of the vectors of a loaded model are words. -/
theorem hasWords_of_load {files : Directory} {path : OsPath} {f : ModelFile}
    (h : load files path = .ok f) : ∀ x ∈ f.model.supportVectors, x.HasWords := by
  unfold load at h
  split at h
  · simp at h
  · simp at h
  · unfold ofContent at h
    split at h
    · simp at h
    · rename_i g hg
      obtain ⟨j, hj⟩ := exists_reader_of_decodeText hg
      obtain rfl : g = f := by
        split at h
        · exact Except.ok.inj h
        · simp at h
      exact hasWords_of_decode hj

end ModelFile

/-! ## Vectors that a program builds -/

/-- Whether a vector is built from words and their values. -/
def SparseVector.Built (v : SparseVector Float) : Prop :=
  ∃ indices values, (∀ i ∈ indices, i < UInt64.size) ∧ ofLists? indices values = some v

/-- Every well-formed vector whose indices are words is built. -/
theorem SparseVector.built_of_wellFormed {v : SparseVector Float} (hwords : v.HasWords)
    (h : v.WellFormed) : v.Built := by
  refine ⟨v.indices, v.values, hwords, ?_⟩
  have hindices : (v.indices.zip v.values).map Prod.fst = v.indices :=
    List.map_fst_zip h.1.le
  have hvalues : (v.indices.zip v.values).map Prod.snd = v.values :=
    List.map_snd_zip h.1.ge
  have hsorted : (v.indices.zip v.values).mergeSort (fun a b => decide (a.1 ≤ b.1)) =
      v.indices.zip v.values := by
    apply List.mergeSort_of_pairwise
    have hpairwise := h.2
    rw [← hindices, List.pairwise_map] at hpairwise
    exact hpairwise.imp fun hle => by simpa using hle
  rw [ofLists?, if_pos h.1, ofEntries]
  simp only [hsorted, hindices, hvalues]

/-- A vector that was built is well formed. -/
theorem SparseVector.wellFormed_of_built {v : SparseVector Float} (h : v.Built) :
    v.WellFormed := by
  obtain ⟨indices, values, -, hlists⟩ := h
  exact wellFormed_of_ofLists? hlists

/-! ## What loaded models decide -/

namespace Model

/-- Whether a model decides and predicts on every vector that is built. -/
def Decides (m : Model) : Prop :=
  ∀ v : SparseVector Float, v.Built → m.decision? v ≠ none ∧ m.predict? v ≠ none

/-- A model decides on every vector that is built exactly if its kernel does not ask for distances,
or all its support vectors that count have a value for each index. -/
theorem decides_iff {m : Model} (hwords : ∀ x ∈ m.supportVectors, x.HasWords) :
    m.Decides ↔ (∀ gamma, m.kernel ≠ .rbf gamma) ∨
      ∀ e ∈ m.supportVectors.zip m.coefficients, e.1.indices.length ≤ e.1.values.length := by
  constructor
  · intro hdecides
    by_cases hkernel : ∃ gamma, m.kernel = .rbf gamma
    · refine .inr fun e he => ?_
      by_contra hlack
      -- the greatest word, repeated, makes the merge pass all indices of the support vector
      let v : SparseVector Float := ⟨List.replicate e.1.indices.length (UInt64.size - 1),
        List.replicate e.1.indices.length 0⟩
      have hv : v.WellFormed := ⟨by simp [v], List.pairwise_replicate.2 (.inr Nat.le.refl)⟩
      have hbuilt : v.Built := by
        refine SparseVector.built_of_wellFormed (fun i hi => ?_) hv
        rw [List.eq_of_mem_replicate hi]
        decide
      have hgreatest : ∀ i ∈ e.1.indices, i ≤ UInt64.size - 1 := fun i hi =>
        Nat.le_sub_one_of_lt (hwords e.1 (List.of_mem_zip he).1 i hi)
      have hpassed : SparseVector.passed e.1.indices v.indices = e.1.indices.length :=
        SparseVector.passed_replicate hgreatest Nat.le.refl
      refine (hdecides v hbuilt).1 ((decision?_eq_none_iff hv.1.le).2 ⟨hkernel, e, he, ?_⟩)
      rw [hpassed]
      exact Nat.lt_of_not_le hlack
    · exact .inl fun gamma hgamma => hkernel ⟨gamma, hgamma⟩
  · intro hsafe v hbuilt
    have hv := (SparseVector.wellFormed_of_built hbuilt).1.le
    have hdecision : m.decision? v ≠ none := by
      rw [ne_eq, decision?_eq_none_iff hv]
      rintro ⟨⟨gamma, hkernel⟩, e, he, hpassed⟩
      rcases hsafe with hother | hvalues
      · exact hother gamma hkernel
      · have hle := SparseVector.passed_le e.1.indices v.indices
        have hlength := hvalues e he
        omega
    exact ⟨hdecision, by rwa [predict?, ne_eq, Option.map_eq_none_iff]⟩

end Model

namespace ModelFile

/-- Loading does not look at the shape of support vectors: with any others, as long as their indices
are words and their values finite, a model that is loaded again is still loaded. -/
theorem load_save_withVectors {m : Model} {vectors : List (SparseVector Float)}
    {now : Occasion} {disk files : Directory} {path : OsPath} (hm : m.Storable) (hread : m.Readable)
    (hwords : ∀ x ∈ vectors, x.HasWords)
    (hfinite : ∀ x ∈ vectors, ∀ a ∈ x.values, a.isFinite = true) (htime : now.time.IsValid)
    (hsave : save disk path { m with supportVectors := vectors } now = .ok files) :
    load files path = .ok (ofModel { m with supportVectors := vectors } now) := by
  have hstorable : Model.Storable { m with supportVectors := vectors } :=
    { hm with vectors := hwords }
  refine (load_save hstorable htime hsave).1 ⟨?_, hread.shallow⟩
  have hold := hread.finite
  simp only [Model.doubles, List.forall_mem_append] at hold ⊢
  exact ⟨⟨⟨⟨⟨hold.1.1.1.1.1, List.forall_mem_flatMap.2 hfinite⟩, hold.1.1.1.2⟩, hold.1.1.2⟩,
    hold.1.2⟩, hold.2⟩

/-- A loaded model decides on every vector that is built exactly if its kernel does not ask for
distances, or all its support vectors that count have a value for each index. -/
theorem decides_iff_of_load {files : Directory} {path : OsPath} {f : ModelFile}
    (h : load files path = .ok f) :
    f.model.Decides ↔ (∀ gamma, f.model.kernel ≠ .rbf gamma) ∨
      ∀ e ∈ f.model.supportVectors.zip f.model.coefficients,
        e.1.indices.length ≤ e.1.values.length :=
  Model.decides_iff (hasWords_of_load h)

section Radial

open Reproduction (isOk_write_axes)

/-- A model whose kernel asks for distances. -/
def radial : Model :=
  { tangled with kernel := .rbf 0.5 }

theorem storable_radial : radial.Storable :=
  { inBounds_tangled with accepted := ModelRecord.ofRecord_of_inner rfl ⟨_, rfl⟩ ⟨_, rfl⟩ }

theorem readable_radial : radial.Readable := by
  have hfinite : radial.doubles.all Float.isFinite = true := by decide +kernel
  exact ⟨List.all_eq_true.1 hfinite, by decide +kernel⟩

/-- It can be saved and loaded with any other vector instead of its own. -/
theorem exists_load_radial {x : SparseVector Float} (hwords : x.HasWords)
    (hfinite : ∀ a ∈ x.values, a.isFinite = true) :
    ∃ files, load files (.ofText "model.json") =
      .ok (ofModel { radial with supportVectors := [x] } minuteOne) := by
  obtain ⟨files, hsave⟩ :=
    exists_save isOk_write_axes { radial with supportVectors := [x] } minuteOne
  exact ⟨files, load_save_withVectors storable_radial readable_radial
    (List.forall_mem_singleton.2 hwords) (List.forall_mem_singleton.2 hfinite) isValid_minuteOne
    hsave⟩

/-- With a vector that has its values it decides on every vector that is built. -/
theorem decides_iff_of_load_radial :
    ∃ files f, load files (.ofText "model.json") = .ok f ∧ f.model.kernel = .rbf 0.5 ∧
      f.model.Decides := by
  obtain ⟨files, hload⟩ := @exists_load_radial ⟨[0, 1], [1, 2]⟩ (by simp [SparseVector.HasWords])
    (by decide +kernel)
  refine ⟨files, _, hload, rfl, (decides_iff_of_load hload).2 (.inr ?_)⟩
  simp [ofModel, radial, tangled]

/-- With a vector that lacks a value it is loaded all the same, and fails on a vector that is
built. -/
theorem not_decides_radial :
    ∃ files f v, load files (.ofText "model.json") = .ok f ∧
      (∃ x ∈ f.model.supportVectors, ¬x.WellFormed) ∧ v.Built ∧
      f.model.decision? v = none ∧ f.model.predict? v = none := by
  obtain ⟨files, hload⟩ := @exists_load_radial ⟨[0, 1], [1]⟩ (by simp [SparseVector.HasWords])
    (by decide +kernel)
  have hbuilt : SparseVector.Built ⟨[0, 1], [1, 1]⟩ :=
    SparseVector.built_of_wellFormed (by simp [SparseVector.HasWords])
      (by simp [SparseVector.WellFormed])
  have hdecision : (ofModel { radial with supportVectors := [⟨[0, 1], [1]⟩] }
      minuteOne).model.decision? ⟨[0, 1], [1, 1]⟩ = none := by
    rw [Model.decision?_eq_none_iff (by simp)]
    exact ⟨⟨0.5, rfl⟩, _, List.mem_cons_self, by simp [SparseVector.passed]⟩
  refine ⟨files, _, _, hload, ⟨_, List.mem_cons_self, ?_⟩, hbuilt, hdecision, ?_⟩
  · simp [SparseVector.WellFormed]
  · rw [Model.predict?, hdecision, Option.map_none]

end Radial

end ModelFile
end Retrace
