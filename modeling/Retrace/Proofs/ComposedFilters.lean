import Retrace.Proofs.Plans
import Retrace.Proofs.StoredValues

/-!
# Filters one after the other

A filter leaves out rare features, numbers the others by their places, and leaves out the samples
that keep no feature.  None of this changes what is stored of a feature that is kept: a sample that
is left out has nothing of it.  So a second filter sees the same counts, and two filters do what one
filter does with the greater threshold, whatever the samples store.

Main results:

- Theorem `valuesOf_storedEntries_restricted`: what is stored of a feature that is kept.
- Theorem `restricted_restricted`: restricting twice is restricting once.
- Theorem `features_atLeast`: a filter keeps the statistics of features and numbers them anew.
- Theorem `keptSamples_atLeast`: what a second filter keeps.
- Theorem `atLeast_atLeast`: two filters are one, and the same filter again changes nothing.
-/

namespace Retrace

open FeatureMap (valuesOf storedEntries valuesOf_append storedEntries_cons)

/-! ## Restricted samples -/

/-- The samples that store the listed features alone, by their places in the list, without those
that store none. -/
def restricted (ids : List Nat) (samples : List (Sample Float)) : List (Sample Float) :=
  (samples.map (Sample.renumbered ids)).filter fun s => !s.features.isEmpty

/-- A sample keeps something if it stores a listed feature. -/
theorem Sample.isEmpty_renumbered (ids : List Nat) (s : Sample Float) :
    (s.renumbered ids).features.isEmpty = !s.features.entries.any fun e => e.1 ∈ ids := by
  rw [renumbered, SparseVector.retain, SparseVector.isEmpty_ofEntries, Bool.eq_iff_iff]
  simp

/-- A sample stays if it stores a listed feature. -/
theorem length_restricted (ids : List Nat) (samples : List (Sample Float)) :
    (restricted ids samples).length =
      samples.countP fun s => s.features.entries.any fun e => e.1 ∈ ids := by
  rw [restricted, ← List.countP_eq_length_filter, List.countP_map]
  congr 1
  funext s
  rw [Function.comp_apply, s.isEmpty_renumbered ids, Bool.not_not]

/-- A first sample is dropped if none of its features is kept. -/
theorem restricted_cons (ids : List Nat) (s : Sample Float) (samples : List (Sample Float)) :
    restricted ids (s :: samples) =
      if (s.renumbered ids).features.isEmpty then restricted ids samples
      else s.renumbered ids :: restricted ids samples := by
  rw [restricted, List.map_cons, List.filter_cons]
  cases (s.renumbered ids).features.isEmpty <;> rfl

section

variable {ids inner outer : List Nat}

/-- The values at a place are those of the feature that was put there. -/
theorem Sample.valuesOf_renumbered (hids : ids.Nodup) (s : Sample Float) (place : Nat) :
    valuesOf (s.renumbered ids).features.entries place =
      ids[place]?.elim [] (valuesOf s.features.entries) :=
  SparseVector.valuesOf_retain_idxOf? s.features hids place

/-- A renumbered sample is empty if no place has a value. -/
theorem Sample.isEmpty_renumbered_iff (ids : List Nat) (s : Sample Float) :
    (s.renumbered ids).features.isEmpty = true ↔
      ∀ place, valuesOf (s.renumbered ids).features.entries place = [] :=
  SparseVector.isEmpty_iff (SparseVector.wellFormed_retain _ _)

/-- What restricted samples store of a feature is what the samples store of it: the samples that are
left out store none of the listed features. -/
theorem valuesOf_storedEntries_restricted (hids : ids.Nodup) (samples : List (Sample Float))
    (place : Nat) :
    valuesOf (storedEntries (restricted ids samples)) place =
      ids[place]?.elim [] (valuesOf (storedEntries samples)) := by
  induction samples with
  | nil => cases ids[place]? <;> rfl
  | cons s samples ih =>
      have hwhole : ids[place]?.elim [] (valuesOf (storedEntries (s :: samples))) =
          valuesOf (s.renumbered ids).features.entries place ++
            valuesOf (storedEntries (restricted ids samples)) place := by
        rw [s.valuesOf_renumbered hids, ih]
        cases ids[place]? with
        | none => rfl
        | some id => simp only [Option.elim_some, storedEntries_cons, valuesOf_append]
      rw [hwhole, restricted_cons]
      split
      · rename_i hempty
        rw [(s.isEmpty_renumbered_iff ids).1 hempty place, List.nil_append]
      · rw [storedEntries_cons, valuesOf_append]

variable (hids : ids.Nodup) (hinner : inner.Nodup) (h : inner.map (ids[·]?) = outer.map some)

include hids hinner h

/-- Numbering a sample anew twice is numbering it anew once. -/
theorem Sample.renumbered_renumbered (s : Sample Float) :
    (s.renumbered ids).renumbered inner = s.renumbered outer := by
  have hfeatures := s.features.retain_retain hids hinner h
  simp only [renumbered, hfeatures]

/-- Restricting samples twice is restricting them once. -/
theorem restricted_restricted (samples : List (Sample Float)) :
    restricted inner (restricted ids samples) = restricted outer samples := by
  induction samples with
  | nil => rfl
  | cons s samples ih =>
      have hagain := s.renumbered_renumbered hids hinner h
      rw [restricted_cons ids, restricted_cons outer, ← hagain]
      split
      · -- a sample that keeps none of the first features keeps none of the second ones
        rename_i hempty
        have hnone : ((s.renumbered ids).renumbered inner).features.isEmpty = true := by
          rw [Sample.isEmpty_renumbered_iff] at hempty ⊢
          intro place
          rw [Sample.valuesOf_renumbered hinner]
          cases inner[place]? with
          | none => rfl
          | some index => exact hempty index
        rw [if_pos hnone, ih]
      · rw [restricted_cons, ih]

end

/-! ## Numbered features -/

/-- Features with their places as numbers. -/
def numbered (features : List FeatureInfo) : List FeatureInfo :=
  features.mapIdx fun place f => { f with id := place }

/-- What is known of a feature does not depend on its number. -/
theorem FeatureInfo.withId_ofValues (name : String) (id place : Nat) (values : List Float) :
    { ofValues name id values with id := place } = ofValues name place values := by
  cases values <;> rfl

theorem FeatureInfo.count_ofValues (name : String) (id : Nat) (values : List Float) :
    (ofValues name id values).count = values.length := by
  cases values <;> rfl

namespace FeatureMap

/-- Each observed feature has the statistics of the values that are stored of it. -/
theorem eq_ofValues_of_mem_observe {names : List String} {samples : List (Sample Float)}
    {f : FeatureInfo} (h : f ∈ (observe names samples).features) :
    f = .ofValues f.name f.id (valuesOf (storedEntries samples) f.id) := by
  rw [observe, List.mem_mapIdx] at h
  obtain ⟨id, hid, rfl⟩ := h
  cases hvalues : valuesOf (storedEntries samples) id <;>
    simp [FeatureInfo.ofValues, hvalues]

/-- The numbers of observed features do not repeat. -/
theorem nodup_ids_filter_observe (names : List String) (samples : List (Sample Float))
    (p : FeatureInfo → Bool) :
    (((observe names samples).features.filter p).map FeatureInfo.id).Nodup := by
  have hall := keptIds_observe_none names samples
  rw [keptIds] at hall
  exact (hall ▸ List.nodup_range).sublist (List.filter_sublist.map _)

/-- Observing restricted samples finds the features to which they are restricted, with the
statistics that they had. -/
theorem features_observe_restricted (names : List String) (samples : List (Sample Float))
    (p : FeatureInfo → Bool) :
    let kept := (observe names samples).features.filter p
    (observe (kept.map FeatureInfo.name)
      (restricted (kept.map FeatureInfo.id) samples)).features = numbered kept := by
  intro kept
  have hnodup : (kept.map FeatureInfo.id).Nodup := nodup_ids_filter_observe names samples p
  apply List.ext_getElem?
  intro place
  rw [observe, numbered, List.getElem?_mapIdx, List.getElem?_mapIdx, List.getElem?_map]
  cases hplace : kept[place]? with
  | none => rfl
  | some f =>
      have hf := eq_ofValues_of_mem_observe (List.mem_of_mem_filter (List.mem_of_getElem? hplace))
      have hid : (kept.map FeatureInfo.id)[place]? = some f.id := by
        rw [List.getElem?_map, hplace, Option.map_some]
      rw [valuesOf_storedEntries_restricted hnodup, hid, Option.elim_some, Option.map_some,
        Option.map_some, Option.map_some, ← FeatureInfo.withId_ofValues f.name f.id, ← hf]

end FeatureMap

section

variable {q : FeatureInfo → Bool} (hq : ∀ (f : FeatureInfo) (place : Nat),
  q { f with id := place } = q f) (features : List FeatureInfo)

include hq

/-- Filtering numbered features by anything but their numbers is filtering the features together
with their places. -/
theorem filter_numbered :
    (numbered features).filter q =
      (features.zipIdx.filter fun e => q e.1).map fun e => { e.1 with id := e.2 } := by
  rw [numbered, List.mapIdx_eq_zipIdx_map, List.filter_map]
  congr 2
  funext e
  exact hq e.1 e.2

omit hq in

/-- Places do not matter to what is kept. -/
theorem map_fst_filter_zipIdx :
    (features.zipIdx.filter fun e => q e.1).map Prod.fst = features.filter q := by
  rw [← List.zipIdx_map_fst 0 features, List.filter_map, List.zipIdx_map_fst]
  rfl

/-- Numbers do not matter to the names that are kept. -/
theorem map_name_filter_numbered :
    ((numbered features).filter q).map FeatureInfo.name =
      (features.filter q).map FeatureInfo.name := by
  rw [filter_numbered hq, ← map_fst_filter_zipIdx, List.map_map, List.map_map]
  rfl

/-- Numbers from before do not matter to the numbers after. -/
theorem numbered_filter_numbered :
    numbered ((numbered features).filter q) = numbered (features.filter q) := by
  rw [filter_numbered hq, ← map_fst_filter_zipIdx]
  apply List.ext_getElem?
  intro place
  simp only [numbered, List.getElem?_mapIdx, List.getElem?_map, Option.map_map]
  rfl

/-- The numbers of features that are filtered after they were numbered lead to the numbers that the
features had before. -/
theorem map_id_filter_numbered :
    (((numbered features).filter q).map FeatureInfo.id).map
        ((features.map FeatureInfo.id)[·]?) =
      ((features.filter q).map FeatureInfo.id).map some := by
  rw [filter_numbered hq, ← map_fst_filter_zipIdx]
  simp only [List.map_map]
  apply List.map_congr_left
  intro e he
  have hplace := List.mem_zipIdx_iff_getElem?.1 (List.mem_of_mem_filter he)
  simp [hplace]

end

/-! ## Filters -/

namespace Dataset

/-- Whether a dataset holds all samples of a source, or what filters leave of them. -/
inductive Built : Dataset → Prop
  | ofSource {source : DataSource} {d : Dataset} (h : ofSource source = .ok d) : Built d
  | atLeast {d e : Dataset} {threshold : UInt64} (hd : Built d)
      (h : d.atLeast threshold = .ok e) : Built e

/-- Whether two datasets hold the same samples in the same order, with the same features and
labels. -/
structure SameData (d e : Dataset) : Prop where
  samples : d.samples = e.samples
  features : d.features = e.features
  labels : d.labels = e.labels

/-- The features and labels of a dataset are what was observed of its samples. -/
theorem Built.observed {d : Dataset} (h : d.Built) :
    (∃ names, d.features = .observe names d.samples) ∧ d.labels = .observe d.samples := by
  cases h with
  | ofSource h =>
      rw [eq_of_ofSource h]
      exact ⟨⟨_, rfl⟩, rfl⟩
  | atLeast _ h =>
      rw [eq_of_atLeast h]
      exact ⟨⟨_, rfl⟩, rfl⟩

section

variable {d e : Dataset} {first second : UInt64}

/-- Samples are kept by the numbers of the features that are kept. -/
theorem keptSamples_eq_restricted (d : Dataset) (kept : List FeatureInfo) :
    d.keptSamples kept = restricted (kept.map FeatureInfo.id) d.samples :=
  rfl

/-- A threshold is accepted if it leaves a sample. -/
theorem exists_atLeast_iff :
    (∃ e, d.atLeast first = .ok e) ↔ d.keptSamples (d.keptFeatures first) ≠ [] := by
  simp only [Dataset.atLeast]
  split
  · rename_i hempty
    simpa using hempty
  · rename_i hsome
    simpa using hsome

/-- A filtered dataset has the samples that are kept. -/
theorem samples_atLeast (h : d.atLeast first = .ok e) :
    e.samples = d.keptSamples (d.keptFeatures first) := by
  rw [eq_of_atLeast h, observe]

/-- A filter keeps the statistics of the features that it keeps, and numbers them by their
places. -/
theorem features_atLeast (hd : d.Built) (h : d.atLeast first = .ok e) :
    e.features.features = numbered (d.keptFeatures first) := by
  obtain ⟨names, hnames⟩ := hd.observed.1
  rw [eq_of_atLeast h, observe, keptSamples_eq_restricted, keptFeatures, hnames]
  exact FeatureMap.features_observe_restricted names d.samples _

/-- Two thresholds are passed where the greater one is. -/
theorem keptFeatures_max :
    d.keptFeatures (max first second) =
      (d.keptFeatures first).filter fun f => second.toNat ≤ f.count := by
  rw [keptFeatures, keptFeatures, List.filter_filter]
  congr 1
  funext f
  rw [UInt64.toNat_max, ← Bool.decide_and]
  congr 1
  rw [Nat.max_le, and_comm]

/-- The features that a second filter keeps, as the first one numbers them. -/
theorem keptFeatures_atLeast (hd : d.Built) (h : d.atLeast first = .ok e) :
    e.keptFeatures second =
      (numbered (d.keptFeatures first)).filter fun f => second.toNat ≤ f.count := by
  rw [keptFeatures, features_atLeast hd h]

/-- Restricting samples to the features that pass the first threshold and then to those that pass
the second one is restricting them to those that pass the greater one. -/
theorem restricted_keptFeatures (hd : d.Built) :
    restricted
        (((numbered (d.keptFeatures first)).filter fun f => second.toNat ≤ f.count).map
          FeatureInfo.id) (d.keptSamples (d.keptFeatures first)) =
      d.keptSamples (d.keptFeatures (max first second)) := by
  obtain ⟨names, hnames⟩ := hd.observed.1
  have hnodup : ((d.keptFeatures first).map FeatureInfo.id).Nodup := by
    rw [keptFeatures, hnames]
    exact FeatureMap.nodup_ids_filter_observe names d.samples _
  have hinner : (((numbered (d.keptFeatures first)).filter fun f =>
      second.toNat ≤ f.count).map FeatureInfo.id).Nodup := by
    rw [keptFeatures, hnames, ← FeatureMap.features_observe_restricted]
    exact FeatureMap.nodup_ids_filter_observe _ _ _
  rw [keptSamples_eq_restricted, keptSamples_eq_restricted, keptFeatures_max]
  exact restricted_restricted hnodup hinner
    (map_id_filter_numbered (fun _ _ => rfl) (d.keptFeatures first)) d.samples

/-- The samples that a second filter keeps are those that one filter keeps with the greater
threshold. -/
theorem keptSamples_atLeast (hd : d.Built) (h : d.atLeast first = .ok e) :
    e.keptSamples (e.keptFeatures second) = d.keptSamples (d.keptFeatures (max first second)) := by
  rw [keptSamples_eq_restricted, samples_atLeast h, keptFeatures_atLeast hd h,
    restricted_keptFeatures hd]

/-- If a filter leaves nothing, neither does one with a greater threshold. -/
theorem exists_atLeast_of_max (hd : d.Built) {g : Dataset}
    (h : d.atLeast (max first second) = .ok g) : ∃ e, d.atLeast first = .ok e := by
  rw [exists_atLeast_iff]
  intro hnothing
  have hmax := exists_atLeast_iff.1 ⟨g, h⟩
  rw [← restricted_keptFeatures hd, hnothing] at hmax
  exact hmax rfl

/-- Two filters leave what one filter leaves with the greater threshold. -/
theorem sameData_atLeast {f g : Dataset} (hd : d.Built) (he : d.atLeast first = .ok e)
    (hf : e.atLeast second = .ok f) (hg : d.atLeast (max first second) = .ok g) :
    f.SameData g := by
  have hsamples : f.samples = g.samples := by
    rw [samples_atLeast hf, samples_atLeast hg, keptSamples_atLeast hd he]
  have hfeatures : f.features.features = g.features.features := by
    rw [features_atLeast (hd.atLeast he) hf, features_atLeast hd hg, keptFeatures_atLeast hd he,
      numbered_filter_numbered fun _ _ => rfl, keptFeatures_max]
  refine ⟨hsamples, congrArg FeatureMap.mk hfeatures, ?_⟩
  rw [((hd.atLeast he).atLeast hf).observed.2, (hd.atLeast hg).observed.2, hsamples]

/-- The features that two filters leave out are those that one filter leaves out with the greater
threshold. -/
theorem removedFeatures_add (hd : d.Built) (h : d.atLeast first = .ok e) :
    d.removedFeatures first + e.removedFeatures second =
      d.removedFeatures (max first second) := by
  have hkept : (e.keptFeatures second).length = (d.keptFeatures (max first second)).length := by
    rw [keptFeatures_atLeast hd h, keptFeatures_max]
    simpa using congrArg List.length
      (map_name_filter_numbered (fun _ _ => rfl) (d.keptFeatures first))
  have hsize : e.features.size = (d.keptFeatures first).length := by
    rw [FeatureMap.size, features_atLeast hd h, numbered, List.length_mapIdx]
  have hfirst : (d.keptFeatures first).length ≤ d.features.size := List.length_filter_le _ _
  have hsecond : (d.keptFeatures (max first second)).length ≤ (d.keptFeatures first).length := by
    rw [keptFeatures_max]
    exact List.length_filter_le _ _
  rw [removedFeatures, removedFeatures, removedFeatures, hkept, hsize]
  omega

/-- Each feature that a filter leaves is stored as often as the threshold says. -/
theorem le_count_atLeast (hd : d.Built) (h : d.atLeast first = .ok e) {f : FeatureInfo}
    (hf : f ∈ e.features.features) :
    first.toNat ≤ f.count ∧ f.count = (valuesOf (storedEntries e.samples) f.id).length := by
  constructor
  · rw [features_atLeast hd h, numbered, List.mem_mapIdx] at hf
    obtain ⟨place, hplace, rfl⟩ := hf
    have hkept := List.getElem_mem hplace
    simpa using (List.mem_filter.1 hkept).2
  · obtain ⟨names, hnames⟩ := (hd.atLeast h).observed.1
    rw [hnames] at hf
    exact (congrArg FeatureInfo.count (FeatureMap.eq_ofValues_of_mem_observe hf)).trans
      (FeatureInfo.count_ofValues ..)

end

/-- Filtering by two thresholds, one after the other, succeeds exactly where filtering by the
greater one does, leaves the same samples, features and labels, and leaves out as many features.
The features that stay are stored as often as the threshold says, and the same filter again leaves
everything as it is. -/
theorem atLeast_atLeast {d : Dataset} (hd : d.Built) (first second : UInt64) :
    (∀ e f, d.atLeast first = .ok e → e.atLeast second = .ok f →
      ∃ g, d.atLeast (max first second) = .ok g ∧ f.SameData g ∧
        d.removedFeatures first + e.removedFeatures second =
          d.removedFeatures (max first second)) ∧
    (∀ g, d.atLeast (max first second) = .ok g →
      ∃ e f, d.atLeast first = .ok e ∧ e.atLeast second = .ok f) ∧
    ∀ e, d.atLeast first = .ok e →
      (∀ feature ∈ e.features.features, first.toNat ≤ feature.count ∧
        feature.count = (valuesOf (storedEntries e.samples) feature.id).length) ∧
      ∃ f, e.atLeast first = .ok f ∧ f.SameData e ∧ e.removedFeatures first = 0 := by
  -- a second filter succeeds where one filter with the greater threshold does
  have hsecond : ∀ {e : Dataset} {next : UInt64}, d.atLeast first = .ok e →
      ((∃ f, e.atLeast next = .ok f) ↔ ∃ g, d.atLeast (max first next) = .ok g) := by
    intro e next he
    rw [exists_atLeast_iff, exists_atLeast_iff, keptSamples_atLeast hd he]
  have hsame : max first first = first := by
    rw [← UInt64.toNat_inj, UInt64.toNat_max, Nat.max_self]
  refine ⟨?_, ?_, ?_⟩
  · intro e f he hf
    obtain ⟨g, hg⟩ := (hsecond he).1 ⟨f, hf⟩
    exact ⟨g, hg, sameData_atLeast hd he hf hg, removedFeatures_add hd he⟩
  · intro g hg
    obtain ⟨e, he⟩ := exists_atLeast_of_max hd hg
    obtain ⟨f, hf⟩ := (hsecond he).2 ⟨g, hg⟩
    exact ⟨e, f, he, hf⟩
  · intro e he
    have hagain : d.atLeast (max first first) = .ok e := by rw [hsame, he]
    obtain ⟨f, hf⟩ := (hsecond he).2 ⟨e, hagain⟩
    have hremoved := @removedFeatures_add d e first first hd he
    rw [hsame] at hremoved
    exact ⟨fun feature hfeature => le_count_atLeast hd he hfeature, f, hf,
      sameData_atLeast hd he hf hagain, by omega⟩

/-- Samples in memory that store one feature twice, one out of order and one that has no name. -/
def uneven : DataSource :=
  .inMemory ["width", "height", "depth"]
    [⟨⟨[5, 0, 0], [3, 1, 2]⟩, 1⟩, ⟨⟨[1], [1]⟩, -1⟩, ⟨⟨[2, 0], [1, 3]⟩, 1⟩, ⟨⟨[2], [4]⟩, -1⟩]
    "uneven"

/-- Of the uneven samples a filter by two leaves three, and a filter by three two of these, as it
does of all of them. -/
theorem atLeast_atLeast_uneven :
    ∃ d e f g, ofSource uneven = .ok d ∧ d.atLeast 2 = .ok e ∧ e.atLeast 3 = .ok f ∧
      d.atLeast (max 2 3) = .ok g ∧ f.SameData g ∧
      d.removedFeatures 2 + e.removedFeatures 3 = d.removedFeatures (max 2 3) ∧
      e.samples.length = 3 ∧ g.samples.length = 2 := by
  let d := observe "MutableDataset" uneven.names uneven.samples uneven.record []
  have hsource : ofSource uneven = .ok d := rfl
  have hfirst : (d.keptSamples (d.keptFeatures 2)).length = 3 := by
    rw [keptSamples_eq_restricted, length_restricted]
    decide +kernel
  have hboth : (d.keptSamples (d.keptFeatures (max 2 3))).length = 2 := by
    rw [keptSamples_eq_restricted, length_restricted]
    decide +kernel
  obtain ⟨hsame, hsucceeds, -⟩ := atLeast_atLeast (.ofSource hsource) 2 3
  obtain ⟨g, hg⟩ := exists_atLeast_iff.2 (List.ne_nil_of_length_eq_add_one hboth)
  obtain ⟨e, f, he, hf⟩ := hsucceeds g hg
  obtain ⟨again, hagain, hdata, hremoved⟩ := hsame e f he hf
  rw [hg, Except.ok.injEq] at hagain
  rw [← hagain] at hdata
  refine ⟨d, e, f, g, hsource, he, hf, hg, hdata, hremoved, ?_, ?_⟩
  · rw [samples_atLeast he, hfirst]
  · rw [samples_atLeast hg, hboth]

end Dataset
end Retrace
