import Retrace.Data.Dataset
import Retrace.Proofs.Plans

/-!
# Samples that fit their columns

The samples of a data file are well formed, and every index that they store names a column of the
file.  Splits and filters of the file keep this, with the columns that they have themselves.

Main results:

- Theorem `fits_ofFile`: the samples of a file fit its columns.
- Theorem `fits_load`: so do the samples of every dataset that is built over a file.
-/

namespace Retrace

/-- Whether a sample is well formed and stores values of so many columns alone. -/
structure Sample.Fits (width : Nat) (s : Sample Float) : Prop where
  wellFormed : s.features.WellFormed
  index_lt : ∀ i ∈ s.features.indices, i < width

/-- An index of a vector is that of an entry. -/
theorem SparseVector.mem_indices_ofEntries {entries : List (Nat × Float)} {i : Nat}
    (h : i ∈ (ofEntries entries).indices) : ∃ e ∈ entries, e.1 = i := by
  simp only [ofEntries, List.mem_map] at h
  rcases h with ⟨e, he, rfl⟩
  exact ⟨e, (List.mergeSort_perm _ _).mem_iff.1 he, rfl⟩

/-- A vector that is built from entries of so many columns fits them. -/
theorem Sample.fits_ofEntries {width : Nat} {entries : List (Nat × Float)}
    (h : ∀ e ∈ entries, e.1 < width) (label : Float) : Fits width ⟨.ofEntries entries, label⟩ := by
  refine ⟨SparseVector.wellFormed_ofEntries entries, fun i hi => ?_⟩
  rcases SparseVector.mem_indices_ofEntries hi with ⟨e, he, rfl⟩
  exact h e he

/-! ## Tables -/

namespace Table

/-- What every line keeps is kept by reading all lines. -/
theorem foldLines_keeps {τ : Type} {format : DataFormat} {step : τ → List Char → Except LineFault τ}
    {p : τ → Prop} (hstep : ∀ t line u, p t → step t line = .ok u → p u)
    {lines : List (Option (List Char))} {table found : τ} {number : Nat} (htable : p table)
    (h : foldLines format step table number lines = .ok found) : p found := by
  induction lines generalizing table number with
  | nil =>
      rw [foldLines, Except.ok.injEq] at h
      exact h ▸ htable
  | cons line rest ih =>
      cases line with
      | none => simp [foldLines] at h
      | some line =>
          simp only [foldLines] at h
          split at h
          · exact ih htable h
          · split at h
            · simp at h
            · rename_i next hnext
              exact ih (hstep table _ next htable hnext) h

end Table

namespace Csv

/-- Feature fields are stored under their columns. -/
theorem index_readFeatures {column : Nat} {texts : List (List Char)} {entries : List (Nat × Float)}
    (h : readFeatures column texts = .ok entries) : ∀ e ∈ entries, e.1 < column + texts.length := by
  induction texts generalizing column entries with
  | nil =>
      rw [readFeatures, Except.ok.injEq] at h
      simp [← h]
  | cons field rest ih =>
      rw [readFeatures] at h
      split at h
      · simp at h
      · cases hrest : readFeatures (column + 1) rest with
        | error fault => simp [hrest, Except.map] at h
        | ok more =>
            simp only [hrest, Except.map, Except.ok.injEq] at h
            have hmore : ∀ e ∈ more, e.1 < column + (field :: rest).length := by
              intro e he
              have := ih hrest e he
              rw [List.length_cons]
              omega
            rw [← h]
            split
            · exact hmore
            · intro e he
              rcases List.mem_cons.1 he with rfl | he
              · simp
              · exact hmore e he

/-- A line fits the columns but for the last one, which has the label. -/
theorem fits_readSample {width : Option Nat} {line : List Char} {found : Sample Float × Nat}
    (h : readSample width line = .ok found) :
    found.1.Fits (found.2 - 1) ∧ ∀ w, width = some w → w = found.2 := by
  simp only [readSample] at h
  split at h
  · rename_i last first others hlast hothers
    split at h
    · simp at h
    · rename_i hwidth
      split at h
      · simp at h
      · cases hentries : readFeatures 0 (first :: others) with
        | error fault => simp [hentries, Except.map] at h
        | ok entries =>
            simp only [hentries, Except.map, Except.ok.injEq] at h
            have hindex := index_readFeatures hentries
            rw [← hothers, List.length_dropLast] at hindex
            rw [← h]
            refine ⟨Sample.fits_ofEntries (by simpa using hindex) _, fun w hw => ?_⟩
            rw [hw] at hwidth
            simpa [Option.filter] using hwidth
  · simp at h

/-- What has been read so far fits the number of columns, and so does the header. -/
structure Progress.Fits (p : Progress) : Prop where
  header : ∀ names, p.header = some names → p.width = some names.length
  samples : ∀ s ∈ p.samples, ∃ w, p.width = some w ∧ s.Fits (w - 1)

/-- A line keeps all samples within the features. -/
theorem fits_readLine {p q : Progress} {line : List Char} (hp : p.Fits)
    (h : readLine p line = .ok q) : q.Fits := by
  rw [readLine] at h
  split at h
  · rename_i hheader
    rw [Except.ok.injEq] at h
    rw [← h]
    refine ⟨fun names hnames => congrArg (Option.map List.length) hnames, fun s hs => ?_⟩
    obtain ⟨w, hw, -⟩ := hp.samples s hs
    simp [hw] at hheader
  · cases hfound : readSample p.width line with
    | error fault => simp [hfound, Except.map] at h
    | ok found =>
        obtain ⟨hfits, hwidth⟩ := fits_readSample hfound
        have hsame : p.width.getD found.2 = found.2 := by
          cases hw : p.width with
          | none => rfl
          | some w => exact hwidth w hw
        simp only [hfound, Except.map, Except.ok.injEq] at h
        rw [← h]
        refine ⟨fun names hnames => ?_, fun s hs => ?_⟩
        · simp [hp.header names hnames]
        · rcases List.mem_cons.1 hs with rfl | hs
          · exact ⟨found.2, by rw [hsame], hfits⟩
          · obtain ⟨w, hw, hs⟩ := hp.samples s hs
            exact ⟨w, by simp [hw], hs⟩

/-- The samples of a table fit its features. -/
theorem fits_parse {content : ByteArray} {table : Table} (h : parse content = .ok table) :
    ∀ s ∈ table.samples, s.Fits table.names.length := by
  rw [parse] at h
  split at h
  · simp at h
  · rename_i p hp
    have hfits : p.Fits := Table.foldLines_keeps (fun _ _ _ => fits_readLine)
      (⟨by simp, by simp⟩ : Progress.Fits ⟨none, none, []⟩) hp
    split at h
    · simp at h
    · simp only [Except.ok.injEq] at h
      rw [← h]
      intro s hs
      obtain ⟨w, hw, hs⟩ := hfits.samples s (List.mem_reverse.1 hs)
      rw [hw, Option.getD_some]
      cases hheader : p.header with
      | none => simpa using hs
      | some names =>
          have hlength := hfits.header names hheader
          rw [hw, Option.some.injEq] at hlength
          simpa [hlength] using hs

end Csv

namespace LibSvm

/-- A sample that is read is well formed. -/
theorem wellFormed_readSample {line : List Char} {s : Sample Float} (h : readSample line = .ok s) :
    s.features.WellFormed := by
  rw [readSample] at h
  split at h
  · simp at h
  · rename_i first tokens hwords
    split at h
    · simp at h
    · cases hpairs : readPairs tokens with
      | error fault => simp [hpairs, Except.map] at h
      | ok entries =>
          simp only [hpairs, Except.map, Except.ok.injEq] at h
          rw [← h]
          exact SparseVector.wellFormed_ofEntries entries

/-- The samples of a table fit its features. -/
theorem fits_parse {content : ByteArray} {table : Table} (h : parse content = .ok table) :
    ∀ s ∈ table.samples, s.Fits table.names.length := by
  simp only [parse] at h
  split at h
  · simp at h
  · rename_i samples hsamples
    have hformed : ∀ s ∈ samples, s.features.WellFormed := by
      apply Table.foldLines_keeps _ (by simp) hsamples
      intro found line next hfound hnext
      cases hs : readSample line with
      | error fault => simp [hs, Except.map] at hnext
      | ok s =>
          simp only [hs, Except.map, Except.ok.injEq] at hnext
          rw [← hnext, List.forall_mem_cons]
          exact ⟨wellFormed_readSample hs, hfound⟩
    split at h
    · simp at h
    · split at h
      · simp at h
      · rw [Except.ok.injEq] at h
        rw [← h]
        intro s hs
        rw [List.mem_reverse] at hs
        refine ⟨hformed s hs, fun i hi => ?_⟩
        simpa using index_lt_dimension hs (hformed s hs) hi

end LibSvm

/-! ## Sources -/

/-- The samples of a file fit its columns. -/
theorem DataSource.fits_ofFile {format : DataFormat} {directory : Directory} {path : OsPath}
    {source : DataSource} (h : ofFile format directory path = .ok source) :
    ∀ s ∈ source.samples, s.Fits source.names.length := by
  rw [ofFile] at h
  split at h
  · simp at h
  · split at h
    · simp at h
    · rename_i table hparse
      rw [← Except.ok.inj h]
      cases format with
      | csv => exact Csv.fits_parse hparse
      | libsvm => exact LibSvm.fits_parse hparse

/-- A sample of a side is one of the whole. -/
theorem DataSource.mem_of_mem_splitSamples {samples : List (Sample Float)} {proportion : Float}
    {seed : UInt64} {part : Part} {s : Sample Float}
    (h : s ∈ splitSamples samples proportion seed part) : s ∈ samples := by
  rw [← (split_perm samples proportion seed).mem_iff, List.mem_append]
  cases part with
  | train => exact .inl h
  | test => exact .inr h

/-- A side of a split has the columns of the source and some of its samples. -/
theorem DataSource.fits_split {source found : DataSource} {proportion : Float} {seed : UInt64}
    {part : Part} (h : source.split proportion seed part = .ok found)
    (hsource : ∀ s ∈ source.samples, s.Fits source.names.length) :
    found.names = source.names ∧ ∀ s ∈ found.samples, s.Fits found.names.length := by
  rw [eq_of_split h]
  exact ⟨rfl, fun s hs => hsource s (mem_of_mem_splitSamples hs)⟩

/-- The samples that are loaded through splits from a file fit its features. -/
theorem SourcePlan.fits_load {directory : Directory} {plan : SourcePlan} {source : DataSource}
    (hplan : plan.overFile = true) (h : plan.load directory = .ok source) :
    ∀ s ∈ source.samples, s.Fits source.names.length := by
  induction plan generalizing source with
  | file format path => exact DataSource.fits_ofFile h
  | memory names samples description => simp [overFile] at hplan
  | split inner proportion seed part ih =>
      rcases load_split h with ⟨found, hfound, hsplit⟩
      exact (DataSource.fits_split hsplit (ih hplan hfound)).2

/-! ## Datasets -/

namespace Dataset

/-- The samples of a dataset fit its features if those of its source do. -/
theorem fits_ofSource {source : DataSource} {d : Dataset} (h : ofSource source = .ok d)
    (hsource : ∀ s ∈ source.samples, s.Fits source.names.length) :
    ∀ s ∈ d.samples, s.Fits d.features.size := by
  rw [eq_of_ofSource h]
  simpa [observe] using hsource

/-- A vector that keeps listed indices alone stores as many columns as are listed. -/
theorem fits_retain (ids : List Nat) (s : Sample Float) :
    Sample.Fits ids.length { s with features := s.features.retain ids.idxOf? } := by
  apply Sample.fits_ofEntries
  intro e he
  simp only [List.mem_filterMap, Option.map_eq_some_iff] at he
  rcases he with ⟨f, -, i, hi, rfl⟩
  exact (List.idxOf?_eq_some_iff.1 hi).1

/-- The samples that a filter keeps fit the columns that it keeps. -/
theorem fits_atLeast {d e : Dataset} {threshold : UInt64} (h : d.atLeast threshold = .ok e) :
    ∀ s ∈ e.samples, s.Fits e.features.size := by
  rw [eq_of_atLeast h]
  intro s hs
  simp only [observe, keptSamples, List.mem_filter, List.mem_map] at hs
  rcases hs with ⟨⟨t, -, rfl⟩, -⟩
  simpa [observe] using fits_retain ((d.keptFeatures threshold).map FeatureInfo.id) t

end Dataset

/-- The samples of every dataset that is built over a file fit its columns. -/
theorem DatasetPlan.fits_load {directory : Directory} {plan : DatasetPlan} {d : Dataset}
    (hplan : plan.source.overFile = true) (h : plan.load directory = .ok d) :
    ∀ s ∈ d.samples, s.Fits d.features.size := by
  cases plan with
  | whole plan =>
      rcases load_whole h with ⟨source, hsource, hd⟩
      exact Dataset.fits_ofSource hd (SourcePlan.fits_load hplan hsource)
  | atLeast threshold inner =>
      rcases load_atLeast h with ⟨e, -, hd⟩
      exact Dataset.fits_atLeast hd

end Retrace
