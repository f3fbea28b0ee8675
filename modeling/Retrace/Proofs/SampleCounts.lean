import Retrace.Proofs.ComposedFilters
import Retrace.Proofs.DoubleOrder
import Retrace.Proofs.FittingSamples

/-!
# Statistics over samples

A feature is counted once for every stored entry, and its extremes are those of the stored values.
These are the statistics of the samples whose value is not zero exactly where every sample stores at
most one value of the feature, and no zero.  A comma-separated file always is read like that.  A
file of indexed values can give zeros and repeat indices, and both are stored.

Main results:

- Theorem `length_nonZeroValues_le`: no feature is counted too seldom.
- Theorem `countsSamples_iff`: when the statistics are those of the samples.
- Theorem `Csv.storesOnce_parse`: comma-separated files give statistics of the samples.
- Theorem `counts_of_parse`: the statistics of every file, and what a filter leaves of them.
-/

namespace Retrace

open FeatureMap (valuesOf storedEntries valuesOf_append storedEntries_cons)

/-- The values that samples have of a feature, without zeros. -/
def nonZeroValues (samples : List (Sample Float)) (id : Nat) : List Float :=
  (samples.map fun s => s.features.get id).filter fun x => !(x == 0)

/-- Whether a sample stores at most one value of a feature, and no zero. -/
def Sample.StoresOnce (s : Sample Float) (id : Nat) : Prop :=
  valuesOf s.features.entries id = [] ∨
    ∃ x, valuesOf s.features.entries id = [x] ∧ (x == 0) = false

/-- Whether the statistics of a feature are those of the values, other than zero, that samples have
of it. -/
structure FeatureInfo.CountsSamples (f : FeatureInfo) (samples : List (Sample Float)) : Prop where
  count : f.count = (nonZeroValues samples f.id).length
  min : 0 < f.count → Double.Least (nonZeroValues samples f.id) f.min
  max : 0 < f.count → Double.Greatest (nonZeroValues samples f.id) f.max

/-! ## One sample -/

namespace Sample

variable {s : Sample Float} {id : Nat}

/-- A feature without entries has no values other than zero. -/
theorem nonZeroValues_of_valuesOf_nil (hs : s.features.WellFormed)
    (h : valuesOf s.features.entries id = []) : nonZeroValues [s] id = [] := by
  have hget : s.features.get id = 0 := by
    rw [SparseVector.get_eq_getLast? hs, h]
    rfl
  have hzero : ((0 : Float) == 0) = true := by decide
  simp [nonZeroValues, hget, hzero]

/-- Where one value is stored, and no zero, it is the value of the sample. -/
theorem nonZeroValues_of_storesOnce (hs : s.features.WellFormed) (h : s.StoresOnce id) :
    nonZeroValues [s] id = valuesOf s.features.entries id := by
  rcases h with hnil | ⟨x, hx, hne⟩
  · rw [nonZeroValues_of_valuesOf_nil hs hnil, hnil]
  · have hget : s.features.get id = x := by
      rw [SparseVector.get_eq_getLast? hs, hx]
      rfl
    rw [hx]
    simp [nonZeroValues, hget, hne]

/-- A sample gives a feature one value at most. -/
theorem length_nonZeroValues_le_one (s : Sample Float) (id : Nat) :
    (nonZeroValues [s] id).length ≤ 1 :=
  List.length_filter_le _ [s.features.get id]

/-- A sample with a value other than zero stores a value. -/
theorem length_nonZeroValues_le (hs : s.features.WellFormed) (id : Nat) :
    (nonZeroValues [s] id).length ≤ (valuesOf s.features.entries id).length := by
  cases hvalues : valuesOf s.features.entries id with
  | nil => rw [nonZeroValues_of_valuesOf_nil hs hvalues]
  | cons x rest =>
      have := length_nonZeroValues_le_one s id
      rw [List.length_cons]
      omega

/-- A sample whose stored values are as many as its values other than zero stores one of them or
none. -/
theorem storesOnce_of_length_eq (hs : s.features.WellFormed)
    (h : (nonZeroValues [s] id).length = (valuesOf s.features.entries id).length) :
    s.StoresOnce id := by
  cases hvalues : valuesOf s.features.entries id with
  | nil => exact .inl hvalues
  | cons x rest =>
      have hone := length_nonZeroValues_le_one s id
      rw [hvalues, List.length_cons] at h
      obtain rfl : rest = [] := List.length_eq_zero_iff.1 (by omega)
      refine .inr ⟨x, hvalues, ?_⟩
      have hget : s.features.get id = x := by
        rw [SparseVector.get_eq_getLast? hs, hvalues]
        rfl
      cases hx : x == 0 with
      | false => rfl
      | true => simp [nonZeroValues, hget, hx] at h

end Sample

/-! ## All samples -/

section

variable {samples : List (Sample Float)} {id : Nat}

/-- The values of a first sample come first. -/
theorem nonZeroValues_cons (s : Sample Float) (samples : List (Sample Float)) (id : Nat) :
    nonZeroValues (s :: samples) id = nonZeroValues [s] id ++ nonZeroValues samples id := by
  rw [nonZeroValues, nonZeroValues, nonZeroValues, ← List.filter_append, ← List.map_append,
    List.singleton_append]

/-- The entries of a first sample count with those of the others. -/
theorem length_valuesOf_storedEntries_cons (s : Sample Float) (samples : List (Sample Float))
    (id : Nat) :
    (valuesOf (storedEntries (s :: samples)) id).length =
      (valuesOf s.features.entries id).length + (valuesOf (storedEntries samples) id).length := by
  rw [storedEntries_cons, valuesOf_append, List.length_append]

variable (hformed : ∀ s ∈ samples, s.features.WellFormed)

include hformed

/-- There are no more samples with a value other than zero than stored values. -/
theorem length_nonZeroValues_le (id : Nat) :
    (nonZeroValues samples id).length ≤ (valuesOf (storedEntries samples) id).length := by
  induction samples with
  | nil => exact Nat.le_refl _
  | cons s samples ih =>
      rw [List.forall_mem_cons] at hformed
      have hfirst := Sample.length_nonZeroValues_le hformed.1 id
      have hrest := ih hformed.2
      rw [nonZeroValues_cons, List.length_append, length_valuesOf_storedEntries_cons]
      omega

/-- Where every sample stores a feature once, the values are the stored ones. -/
theorem nonZeroValues_eq_valuesOf (h : ∀ s ∈ samples, s.StoresOnce id) :
    nonZeroValues samples id = valuesOf (storedEntries samples) id := by
  induction samples with
  | nil => rfl
  | cons s samples ih =>
      rw [List.forall_mem_cons] at hformed h
      rw [nonZeroValues_cons, storedEntries_cons, valuesOf_append, ih hformed.2 h.2,
        Sample.nonZeroValues_of_storesOnce hformed.1 h.1]

/-- Where no more values are stored than there are samples with a value other than zero, every
sample stores at most one value, and no zero. -/
theorem storesOnce_of_length_eq
    (h : (nonZeroValues samples id).length = (valuesOf (storedEntries samples) id).length) :
    ∀ s ∈ samples, s.StoresOnce id := by
  induction samples with
  | nil => simp
  | cons s samples ih =>
      rw [List.forall_mem_cons] at hformed ⊢
      have hfirst := Sample.length_nonZeroValues_le hformed.1 id
      have hrest := length_nonZeroValues_le hformed.2 id
      rw [nonZeroValues_cons, List.length_append, length_valuesOf_storedEntries_cons] at h
      exact ⟨Sample.storesOnce_of_length_eq hformed.1 (by omega), ih hformed.2 (by omega)⟩

end

/-! ## Observed features -/

namespace FeatureMap

variable {names : List String} {samples : List (Sample Float)} {f : FeatureInfo}

/-- A feature is counted once for every value that is stored of it, and its extremes are those of
these values. -/
theorem statistics_of_mem_observe (hf : f ∈ (observe names samples).features) :
    f.count = (valuesOf (storedEntries samples) f.id).length ∧
      (0 < f.count → Double.Least (valuesOf (storedEntries samples) f.id) f.min ∧
        Double.Greatest (valuesOf (storedEntries samples) f.id) f.max) := by
  have hvalues := eq_ofValues_of_mem_observe hf
  cases hstored : valuesOf (storedEntries samples) f.id with
  | nil =>
      rw [hstored] at hvalues
      have hcount : f.count = 0 := congrArg FeatureInfo.count hvalues
      exact ⟨hcount, fun hpos => by omega⟩
  | cons v rest =>
      rw [hstored] at hvalues
      have hmin : f.min = rest.foldl Scalar.smaller v := congrArg FeatureInfo.min hvalues
      have hmax : f.max = rest.foldl Scalar.larger v := congrArg FeatureInfo.max hvalues
      refine ⟨congrArg FeatureInfo.count hvalues, fun _ => ?_⟩
      rw [hmin, hmax]
      exact ⟨Double.least_foldl_smaller v rest, Double.greatest_foldl_larger v rest⟩

/-- The statistics of a feature are those of the samples exactly if every sample stores at most one
value of it, and no zero. -/
theorem countsSamples_iff (hformed : ∀ s ∈ samples, s.features.WellFormed)
    (hf : f ∈ (observe names samples).features) :
    f.CountsSamples samples ↔ ∀ s ∈ samples, s.StoresOnce f.id := by
  obtain ⟨hcount, hextremes⟩ := statistics_of_mem_observe hf
  constructor
  · intro h
    exact storesOnce_of_length_eq hformed (h.count.symm.trans hcount)
  · intro h
    have hvalues := nonZeroValues_eq_valuesOf hformed h
    rw [← hvalues] at hcount hextremes
    exact ⟨hcount, fun hpos => (hextremes hpos).1, fun hpos => (hextremes hpos).2⟩

end FeatureMap

/-! ## Files -/

namespace Csv

/-- A field gives its column one value at most, and no zero. -/
theorem valuesOf_readFeatures {column : Nat} {texts : List (List Char)}
    {entries : List (Nat × Float)} (h : readFeatures column texts = .ok entries) :
    (∀ e ∈ entries, column ≤ e.1) ∧
      ∀ id, valuesOf entries id = [] ∨ ∃ x, valuesOf entries id = [x] ∧ (x == 0) = false := by
  induction texts generalizing column entries with
  | nil =>
      rw [readFeatures, Except.ok.injEq] at h
      rw [← h]
      exact ⟨by simp, fun id => .inl rfl⟩
  | cons field rest ih =>
      rw [readFeatures] at h
      split at h
      · simp at h
      · rename_i value hvalue
        cases hrest : readFeatures (column + 1) rest with
        | error fault => simp [hrest, Except.map] at h
        | ok more =>
            simp only [hrest, Except.map, Except.ok.injEq] at h
            obtain ⟨hcolumns, honce⟩ := ih hrest
            have hmore : ∀ e ∈ more, column ≤ e.1 := fun e he =>
              Nat.le_of_succ_le (hcolumns e he)
            rw [← h]
            split
            · exact ⟨hmore, honce⟩
            · rename_i hne
              rw [Bool.not_eq_true] at hne
              refine ⟨List.forall_mem_cons.2 ⟨Nat.le_refl _, hmore⟩, fun id => ?_⟩
              rw [FeatureMap.valuesOf_cons]
              split
              · -- the fields behind this one have other columns
                rename_i hid
                have hnil : valuesOf more id = [] := by
                  rw [FeatureMap.valuesOf_eq_nil_iff]
                  intro e he
                  have := hcolumns e he
                  simp only at hid
                  omega
                exact .inr ⟨value, by rw [hnil], hne⟩
              · exact honce id

theorem storesOnce_readSample {width : Option Nat} {line : List Char} {found : Sample Float × Nat}
    (h : readSample width line = .ok found) (id : Nat) : found.1.StoresOnce id := by
  simp only [readSample] at h
  split at h
  · rename_i last first others hlast hothers
    split at h
    · simp at h
    · split at h
      · simp at h
      · cases hentries : readFeatures 0 (first :: others) with
        | error fault => simp [hentries, Except.map] at h
        | ok entries =>
            simp only [hentries, Except.map, Except.ok.injEq] at h
            rw [← h, Sample.StoresOnce]
            simp only [SparseVector.valuesOf_entries_ofEntries]
            exact (valuesOf_readFeatures hentries).2 id
  · simp at h

/-- The samples of a comma-separated file store one value of a feature at most, and no zero. -/
theorem storesOnce_parse {content : ByteArray} {table : Table} (h : parse content = .ok table) :
    ∀ s ∈ table.samples, ∀ id, s.StoresOnce id := by
  rw [parse] at h
  split at h
  · simp at h
  · rename_i p hp
    have honce : ∀ s ∈ p.samples, ∀ id, s.StoresOnce id := by
      refine Table.foldLines_keeps (p := fun q : Progress => ∀ s ∈ q.samples, ∀ id, s.StoresOnce id)
        (fun q line next hq hnext => ?_) (by simp) hp
      rw [readLine] at hnext
      split at hnext
      · rw [Except.ok.injEq] at hnext
        rw [← hnext]
        exact hq
      · cases hfound : readSample q.width line with
        | error fault => simp [hfound, Except.map] at hnext
        | ok found =>
            simp only [hfound, Except.map, Except.ok.injEq] at hnext
            rw [← hnext, List.forall_mem_cons]
            exact ⟨storesOnce_readSample hfound, hq⟩
    split at h
    · simp at h
    · simp only [Except.ok.injEq] at h
      rw [← h]
      exact fun s hs => honce s (List.mem_reverse.1 hs)

end Csv

namespace DataSource

variable {format : DataFormat} {content : ByteArray} {table : Table}

/-- The samples of a table fit its features. -/
theorem fits_parse (h : parse format content = .ok table) :
    ∀ s ∈ table.samples, s.Fits table.names.length := by
  cases format with
  | csv => exact Csv.fits_parse h
  | libsvm => exact LibSvm.fits_parse h

/-- A table has samples. -/
theorem samples_ne_nil_of_parse (h : parse format content = .ok table) : table.samples ≠ [] := by
  cases format with
  | csv =>
      rw [parse, Csv.parse] at h
      split at h
      · simp at h
      · split at h
        · simp at h
        · rename_i hne
          rw [Except.ok.injEq] at h
          rw [← h]
          simpa using hne
  | libsvm =>
      rw [parse, LibSvm.parse] at h
      simp only at h
      split at h
      · simp at h
      · split at h
        · simp at h
        · rename_i hne
          split at h
          · simp at h
          · rw [Except.ok.injEq] at h
            rw [← h]
            simpa using hne

end DataSource

/-! ## Datasets -/

namespace Dataset

/-- The statistics of the features of any file.  Each feature is counted once for every value that
is stored of it, with the extremes of these values, so it is never counted too seldom.  These are
the statistics of the samples with a value other than zero exactly if every sample stores at most
one value and no zero, as it does if the file is comma-separated.  Where all features are counted
like that, a filter leaves those that enough samples have with a value other than zero. -/
theorem counts_of_parse {format : DataFormat} {content : ByteArray} {table : Table}
    (h : DataSource.parse format content = .ok table) (record : Record) :
    ∃ d, ofSource ⟨table.names, table.samples, record⟩ = .ok d ∧ d.samples = table.samples ∧
      d.features.features.map FeatureInfo.id = List.range table.names.length ∧
      (∀ f ∈ d.features.features,
        f.count = (valuesOf (storedEntries d.samples) f.id).length ∧
        (0 < f.count → Double.Least (valuesOf (storedEntries d.samples) f.id) f.min ∧
          Double.Greatest (valuesOf (storedEntries d.samples) f.id) f.max) ∧
        (nonZeroValues d.samples f.id).length ≤ f.count ∧
        (f.CountsSamples d.samples ↔ ∀ s ∈ d.samples, s.StoresOnce f.id) ∧
        (format = .csv → f.CountsSamples d.samples)) ∧
      ((∀ f ∈ d.features.features, f.CountsSamples d.samples) →
        ∀ threshold e, d.atLeast threshold = .ok e →
          e.features.features = numbered (d.features.features.filter fun f =>
            threshold.toNat ≤ (nonZeroValues d.samples f.id).length)) := by
  have hformed : ∀ s ∈ table.samples, s.features.WellFormed := fun s hs =>
    (DataSource.fits_parse h s hs).wellFormed
  have hsource : ofSource ⟨table.names, table.samples, record⟩ =
      .ok (observe "MutableDataset" table.names table.samples record []) := by
    rw [ofSource, if_neg]
    simpa using DataSource.samples_ne_nil_of_parse h
  refine ⟨_, hsource, rfl, FeatureMap.keptIds_observe_none table.names table.samples, ?_, ?_⟩
  · intro f hf
    obtain ⟨hcount, hextremes⟩ := FeatureMap.statistics_of_mem_observe hf
    have hiff := FeatureMap.countsSamples_iff hformed hf
    refine ⟨hcount, hextremes, hcount ▸ length_nonZeroValues_le hformed f.id, hiff, ?_⟩
    rintro rfl
    exact hiff.2 fun s hs => Csv.storesOnce_parse h s hs f.id
  · intro hcounts threshold e he
    rw [features_atLeast (.ofSource hsource) he, keptFeatures]
    congr 1
    apply List.filter_congr
    intro f hf
    rw [(hcounts f hf).count]

/-- Two points on two axes, with zeros and a value that is no number. -/
def sparsePoints : ByteArray :=
  "x,y,label\n1,0,1\n0,nan,-1\n".toUTF8

/-- In a comma-separated file with zeros both features are counted once, as one sample each has them
with a value other than zero. -/
theorem counts_of_parse_sparsePoints :
    ∃ table d, DataSource.parse .csv sparsePoints = .ok table ∧
      ofSource ⟨table.names, table.samples, .observed .dataSource "CSVSource" []⟩ = .ok d ∧
      d.features.features.map FeatureInfo.id = [0, 1] ∧
      (∀ f ∈ d.features.features, f.count = 1 ∧ f.CountsSamples d.samples) ∧
      ∀ threshold e, d.atLeast threshold = .ok e →
        e.features.features = numbered (d.features.features.filter fun f =>
          threshold.toNat ≤ (nonZeroValues d.samples f.id).length) := by
  have hparse : ((DataSource.parse .csv sparsePoints).toOption.any fun table =>
      table.names.length == 2 && (List.range 2).all fun id =>
        (nonZeroValues table.samples id).length == 1) = true := by
    decide +kernel
  simp only [Option.any_eq_true, toOption_eq_some_iff, Bool.and_eq_true, beq_iff_eq,
    List.all_eq_true] at hparse
  obtain ⟨table, htable, hnames, hone⟩ := hparse
  obtain ⟨d, hd, hsamples, hids, hfeatures, hfilter⟩ :=
    counts_of_parse htable (.observed .dataSource "CSVSource" [])
  rw [hnames] at hids
  have hcounts : ∀ f ∈ d.features.features, f.CountsSamples d.samples := fun f hf =>
    (hfeatures f hf).2.2.2.2 rfl
  refine ⟨table, d, htable, hd, hids, fun f hf => ⟨?_, hcounts f hf⟩, hfilter hcounts⟩
  have hid : f.id ∈ List.range 2 := hids ▸ List.mem_map_of_mem hf
  rw [(hcounts f hf).count, hsamples]
  exact hone f.id hid

/-- A zero that is given for the first of two features. -/
def storedZero : ByteArray :=
  "1 1:0\n-1 2:1\n".toUTF8

/-- In a file of indexed values a feature whose only value is a given zero is counted once, though
no sample has it with a value other than zero, and a filter by one leaves it. -/
theorem not_countsSamples_storedZero :
    ∃ table d f e, DataSource.parse .libsvm storedZero = .ok table ∧
      ofSource ⟨table.names, table.samples, .observed .dataSource "LibSVMSource" []⟩ = .ok d ∧
      d.features.get? 0 = some f ∧ f.count = 1 ∧ nonZeroValues d.samples f.id = [] ∧
      ¬f.CountsSamples d.samples ∧ d.atLeast 1 = .ok e ∧ f ∈ e.features.features := by
  have hcounted : ((DataSource.parse .libsvm storedZero).toOption.any fun table =>
      (ofSource ⟨table.names, table.samples, .observed .dataSource "LibSVMSource" []⟩).toOption.any
        fun d => (d.features.get? 0).any fun f => (d.atLeast 1).toOption.any fun e =>
          f.count == 1 && (nonZeroValues d.samples f.id).isEmpty &&
            e.features.features.contains f) = true := by
    decide +kernel
  simp only [Option.any_eq_true, toOption_eq_some_iff, Bool.and_eq_true, beq_iff_eq,
    List.isEmpty_iff, List.contains_iff_mem] at hcounted
  obtain ⟨table, htable, d, hd, f, hf, e, he, ⟨hcount, hnone⟩, hleft⟩ := hcounted
  refine ⟨table, d, f, e, htable, hd, hf, hcount, hnone, fun hcounts => ?_, he, hleft⟩
  have hsame := hcounts.count
  rw [hcount, hnone] at hsame
  exact absurd hsame (by decide)

end Dataset
end Retrace
