import Retrace.Proofs.StoredEntries

/-!
# How large data can be

A table has no more samples and, beyond what a list can hold, no more columns than its file has
bytes.  Neither a split nor a filter adds any, so over a file every count that a dataset keeps is a
word.

Main results:

- Theorems `Csv.sizes_parse` and `LibSvm.sizes_parse`: how many samples and columns a table has.
- Theorem `LabelCounts.le_length_of_mem`: a label is not counted more often than there are samples.
- Theorem `sizes_load`: how many samples and columns a dataset over a file has.
-/

namespace Retrace

/-! ## Tables -/

namespace Csv

/-- Every line that is read as a sample or as a header has a separator for each of its columns. -/
theorem length_fields_le (line : List Char) : (fields line).length - 1 ≤ line.length := by
  have hcount : line.count ',' ≤ line.length := List.count_le_length
  rw [fields, List.length_map, Text.length_fields]
  omega

/-- A row has at least two fields, and its width counts them. -/
theorem width_readSample {width : Option Nat} {line : List Char} {found : Sample Float × Nat}
    (h : readSample width line = .ok found) : found.2 = (fields line).length ∧ 2 ≤ found.2 := by
  simp only [readSample] at h
  split at h
  · rename_i last first others hlast hothers
    have hlength := congrArg List.length hothers
    rw [List.length_dropLast, List.length_cons] at hlength
    split at h
    · simp at h
    · split at h
      · simp at h
      · cases hentries : readFeatures 0 (first :: others) with
        | error fault => simp [hentries, Except.map] at h
        | ok entries =>
            simp only [hentries, Except.map, Except.ok.injEq] at h
            rw [← h]
            exact ⟨rfl, by omega⟩
  · simp at h

/-- The number of columns grows with a line by no more than its length. -/
theorem width_readLine {p q : Progress} {line : List Char} (h : readLine p line = .ok q) :
    q.width.getD 1 - 1 ≤ p.width.getD 1 - 1 + line.length := by
  have hfields := length_fields_le line
  rw [readLine] at h
  split at h
  · rw [← Except.ok.inj h, Option.getD_some, List.length_map]
    omega
  · cases hfound : readSample p.width line with
    | error fault => simp [hfound, Except.map] at h
    | ok found =>
        have hwidth := (width_readSample hfound).1
        simp only [hfound, Except.map, Except.ok.injEq] at h
        rw [← h, Option.getD_some]
        cases p.width <;> simp only [Option.getD_none, Option.getD_some] <;> omega

/-- So does the number of samples. -/
theorem samples_readLine {p q : Progress} {line : List Char} (h : readLine p line = .ok q) :
    q.samples.length ≤ p.samples.length + line.length := by
  have hfields := length_fields_le line
  rw [readLine] at h
  split at h
  · rw [← Except.ok.inj h]
    exact Nat.le_add_right _ _
  · cases hfound : readSample p.width line with
    | error fault => simp [hfound, Except.map] at h
    | ok found =>
        have hwidth := width_readSample hfound
        simp only [hfound, Except.map, Except.ok.injEq] at h
        rw [← h, List.length_cons]
        omega

/-- A table has no more columns and no more samples than its file has bytes. -/
theorem sizes_parse {content : ByteArray} {table : Table} (h : parse content = .ok table) :
    table.names.length ≤ content.size ∧ table.samples.length ≤ content.size := by
  rw [parse] at h
  split at h
  · simp at h
  · rename_i p hp
    have hlines := Text.length_contentLines content
    have hwidth := Table.foldLines_le (fun p : Progress => p.width.getD 1 - 1)
      (fun _ _ _ => width_readLine) hp
    have hsamples := Table.foldLines_le (fun p : Progress => p.samples.length)
      (fun _ _ _ => samples_readLine) hp
    simp only [Option.getD_none, List.length_nil] at hwidth hsamples
    split at h
    · simp at h
    · rw [← Except.ok.inj h]
      constructor
      · cases p.header with
        | none =>
            simp only [List.length_map, List.length_range]
            omega
        | some names =>
            simp only [List.length_take]
            omega
      · rw [List.length_reverse]
        omega

end Csv

namespace LibSvm

/-- A line that gives a sample is not empty. -/
theorem ne_nil_of_readSample {line : List Char} {s : Sample Float} (h : readSample line = .ok s) :
    line ≠ [] := by
  rintro rfl
  have hwords : Text.words [] = [] := rfl
  rw [readSample, hwords] at h
  simp at h

/-- A table has no more columns than can be listed and no more samples than its file has bytes. -/
theorem sizes_parse {content : ByteArray} {table : Table} (h : parse content = .ok table) :
    table.names.length ≤ mostNames ∧ table.samples.length ≤ content.size := by
  simp only [parse] at h
  split at h
  · simp at h
  · rename_i samples hsamples
    have hlines := Text.length_contentLines content
    have hstep : ∀ (t : List (Sample Float)) line u,
        ((readSample line).map fun s => s :: t) = .ok u → u.length ≤ t.length + line.length := by
      intro t line u hu
      cases hs : readSample line with
      | error fault => simp [hs, Except.map] at hu
      | ok s =>
          have hline := List.length_pos_iff.2 (ne_nil_of_readSample hs)
          simp only [hs, Except.map, Except.ok.injEq] at hu
          rw [← hu, List.length_cons]
          omega
    have hbound := Table.foldLines_le List.length hstep hsamples
    rw [List.length_nil] at hbound
    split at h
    · simp at h
    · split at h
      · simp at h
      · rw [← Except.ok.inj h]
        simp only [List.length_map, List.length_range, List.length_reverse]
        omega

end LibSvm

/-! ## Label counts -/

namespace LabelCounts

/-- Counting a label once raises no count by more than one. -/
theorem le_of_mem_count1 {name : String} {counts : List (String × Nat)} {n : Nat}
    (h : ∀ e ∈ counts, e.2 ≤ n) : ∀ e ∈ count1 name counts, e.2 ≤ n + 1 := by
  intro e he
  rcases Keyed.mem_insert he with rfl | he
  · cases hfound : Keyed.lookup name counts with
    | none => simp
    | some count => simpa using h _ (Keyed.mem_of_lookup hfound)
  · exact Nat.le_succ_of_le (h e he)

/-- A label is not counted more often than there are samples. -/
theorem le_length_of_mem (samples : List (Sample Float)) :
    ∀ e ∈ (observe samples).counts, e.2 ≤ samples.length := by
  have hfold : ∀ (samples : List (Sample Float)) (counts : List (String × Nat)) (n : Nat),
      (∀ e ∈ counts, e.2 ≤ n) →
        ∀ e ∈ samples.foldl (fun counts s => count1 (labelName s.label) counts) counts,
          e.2 ≤ n + samples.length := by
    intro samples
    induction samples with
    | nil => exact fun _ _ h => h
    | cons s rest ih =>
        intro counts n h
        rw [List.foldl_cons, List.length_cons, Nat.add_comm rest.length 1, ← Nat.add_assoc]
        exact ih _ _ (le_of_mem_count1 h)
  simpa [observe] using hfold samples [] 0 (by simp)

end LabelCounts

/-! ## Plans -/

/-- The source of a file that can be read into memory. -/
theorem DataSource.sizes_ofFile {format : DataFormat} {directory : Directory} {path : OsPath}
    {source : DataSource} (hfiles : directory.Addressable)
    (h : ofFile format directory path = .ok source) :
    source.names.length < 2 ^ 63 ∧ source.samples.length < 2 ^ 63 := by
  rw [ofFile] at h
  split at h
  · simp at h
  · rename_i content hread
    have hsize := hfiles _ _ hread
    split at h
    · simp at h
    · rename_i table htable
      rw [← Except.ok.inj h]
      cases format with
      | csv =>
          obtain ⟨hnames, hsamples⟩ := Csv.sizes_parse htable
          exact ⟨Nat.lt_of_le_of_lt hnames hsize, Nat.lt_of_le_of_lt hsamples hsize⟩
      | libsvm =>
          obtain ⟨hnames, hsamples⟩ := LibSvm.sizes_parse htable
          have hmost : LibSvm.mostNames < 2 ^ 63 := by decide
          exact ⟨Nat.lt_of_le_of_lt hnames hmost, Nat.lt_of_le_of_lt hsamples hsize⟩

/-- A side has no more samples than the whole. -/
theorem DataSource.length_splitSamples (samples : List (Sample Float)) (proportion : Float)
    (seed : UInt64) (part : Part) :
    (splitSamples samples proportion seed part).length ≤ samples.length := by
  have h := (split_perm samples proportion seed).length_eq
  rw [List.length_append] at h
  cases part <;> omega

/-- What is loaded through splits from a file has sizes of 63 bits. -/
theorem SourcePlan.sizes_load {directory : Directory} (hfiles : directory.Addressable)
    {plan : SourcePlan} (hplan : plan.overFile = true) {source : DataSource}
    (h : plan.load directory = .ok source) :
    source.names.length < 2 ^ 63 ∧ source.samples.length < 2 ^ 63 := by
  induction plan generalizing source with
  | file format path => exact DataSource.sizes_ofFile hfiles h
  | memory names samples description => simp [overFile] at hplan
  | split inner proportion seed part ih =>
      rcases load_split h with ⟨found, hload, hsplit⟩
      obtain ⟨hnames, hsamples⟩ := ih hplan hload
      rw [DataSource.eq_of_split hsplit]
      exact ⟨hnames, Nat.lt_of_le_of_lt (DataSource.length_splitSamples ..) hsamples⟩

/-- A dataset over a file that can be read into memory has no more columns and no more samples than
a signed 64-bit size can say. -/
theorem DatasetPlan.sizes_load {directory : Directory} (hfiles : directory.Addressable)
    {plan : DatasetPlan} (hplan : plan.source.overFile = true) {d : Dataset}
    (h : plan.load directory = .ok d) : d.features.size < 2 ^ 63 ∧ d.samples.length < 2 ^ 63 := by
  induction plan generalizing d with
  | whole plan =>
      rcases load_whole h with ⟨source, hload, hd⟩
      rw [Dataset.eq_of_ofSource hd]
      simpa [Dataset.observe] using SourcePlan.sizes_load hfiles hplan hload
  | atLeast threshold inner ih =>
      rcases load_atLeast h with ⟨found, hload, hd⟩
      obtain ⟨hfeatures, hsamples⟩ := ih hplan hload
      have hkept : (found.keptFeatures threshold).length ≤ found.features.size :=
        List.length_filter_le _ _
      have hrest : (found.keptSamples (found.keptFeatures threshold)).length ≤
          found.samples.length :=
        Nat.le_trans (List.length_filter_le _ _) (Nat.le_of_eq (List.length_map _))
      rw [Dataset.eq_of_atLeast hd]
      simp only [Dataset.observe, FeatureMap.size_observe, List.length_map]
      omega

end Retrace
