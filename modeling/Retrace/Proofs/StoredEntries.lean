import Mathlib
import Retrace.Folder
import Retrace.Proofs.Keyed
import Retrace.Proofs.Plans

/-!
# How many entries data can have

A data file stores no more entries than it has bytes, and neither a split nor a filter adds any.  So
the number of times that a feature is stored is bounded by the size of the file, however the samples
were split and filtered.

Main results:

- Theorems `Csv.stored_parse` and `LibSvm.stored_parse`: a table stores no more entries than its
  file has bytes.
- Theorem `count_le_stored`: a feature is not counted more often than entries are stored.
- Theorem `thresholds_lt`: a threshold that keeps something of a file is below the half of the range
  of words.
-/

namespace Retrace

/-! ## Lines of a file -/

namespace Text

/-- A line gets no longer when its carriage return is dropped. -/
theorem length_dropReturn (line : List Char) : (dropReturn line).length ≤ line.length := by
  rw [dropReturn]
  split
  · rw [List.length_dropLast]
    omega
  · exact Nat.le_refl _

/-- The lines of a text hold no more characters than the text. -/
theorem length_linesFrom (line s : List Char) :
    (linesFrom line s).flatten.length ≤ line.length + s.length := by
  induction s generalizing line with
  | nil =>
      rw [linesFrom]
      split <;> simp
  | cons c rest ih =>
      rw [linesFrom]
      split
      · have hline := length_dropReturn line.reverse
        have hrest := ih []
        rw [List.length_reverse] at hline
        simp only [List.flatten_cons, List.length_append, List.length_cons, List.length_nil] at *
        omega
      · have hrest := ih (c :: line)
        simp only [List.length_cons] at *
        omega

/-- Lines have the bytes of the content, line feeds included. -/
theorem length_byteLinesFrom (line bytes : List UInt8) :
    (byteLinesFrom line bytes).flatten.length = line.length + bytes.length := by
  induction bytes generalizing line with
  | nil =>
      rw [byteLinesFrom]
      cases line <;> simp
  | cons b rest ih =>
      rw [byteLinesFrom]
      split
      · simp only [List.flatten_cons, List.length_append, List.length_reverse, List.length_cons, ih,
          List.length_nil]
        omega
      · simp only [ih, List.length_cons]
        omega

/-- A text has at most as many characters as its bytes. -/
theorem length_le_size_utf8Encode (s : List Char) : s.length ≤ s.utf8Encode.size := by
  induction s with
  | nil => exact Nat.zero_le _
  | cons c rest ih =>
      have hpos : 0 < [c].utf8Encode.size := by
        simp [List.utf8Encode_singleton, Char.utf8Size_pos]
      rw [List.utf8Encode_cons, ByteArray.size_append, List.length_cons]
      omega

/-- A decoded text has no more characters than there were bytes. -/
theorem length_decodeUtf8 {bytes : ByteArray} {s : List Char} (h : decodeUtf8 bytes = some s) :
    s.length ≤ bytes.size := by
  rw [decodeUtf8, Option.map_eq_some_iff] at h
  rcases h with ⟨text, htext, rfl⟩
  have hbytes : text.toByteArray = bytes := by
    rw [String.fromUTF8?] at htext
    split at htext
    · rw [← Option.some.inj htext]
      rfl
    · simp at htext
  rw [← hbytes, ← String.utf8Encode_toList]
  exact length_le_size_utf8Encode _

/-- The list of the bytes has the size of the content. -/
theorem length_toList (content : ByteArray) : content.toList.length = content.size := by
  have hloop : ∀ i r, (ByteArray.toList.loop content i r).length =
      r.length + (content.size - i) := by
    intro i r
    induction i, r using ByteArray.toList.loop.induct content with
    | case1 i r hlt ih =>
        rw [ByteArray.toList.loop, if_pos hlt, ih, List.length_cons]
        omega
    | case2 i r hge =>
        rw [ByteArray.toList.loop, if_neg hge, List.length_reverse]
        omega
  have := hloop 0 []
  rwa [List.length_nil, Nat.zero_add, Nat.sub_zero] at this

/-- The lines of a file hold no more characters than the file has bytes. -/
theorem length_contentLines (content : ByteArray) :
    ((contentLines content).map fun line => line.getD []).flatten.length ≤ content.size := by
  rw [contentLines]
  cases hs : decodeUtf8 content with
  | some s =>
      have hlines := length_linesFrom [] s
      have hdecoded := length_decodeUtf8 hs
      simp only [List.map_map, Function.comp_def, Option.getD_some, List.map_id', lines]
      rw [List.length_nil] at hlines
      omega
  | none =>
      have hbytes := length_byteLinesFrom [] content.toList
      rw [List.length_nil, Nat.zero_add, length_toList] at hbytes
      rw [← hbytes]
      generalize byteLinesFrom [] content.toList = byteLines
      induction byteLines with
      | nil => exact Nat.le_refl _
      | cons bytes rest ih =>
          have hline : (((decodeUtf8 ⟨bytes.toArray⟩).map fun s =>
              (lines s).headD []).getD []).length ≤ bytes.length := by
            cases hs : decodeUtf8 ⟨bytes.toArray⟩ with
            | none => exact Nat.zero_le _
            | some s =>
                have hdecoded := length_decodeUtf8 hs
                have hlines := length_linesFrom [] s
                have hsize : (ByteArray.mk bytes.toArray).size = bytes.length := rfl
                rw [← lines] at hlines
                simp only [Option.map_some, Option.getD_some]
                cases hl : lines s with
                | nil => exact Nat.zero_le _
                | cons first others =>
                    rw [hl, List.flatten_cons, List.length_append, List.length_nil] at hlines
                    rw [List.headD_cons]
                    omega
          simp only [List.map_cons, List.flatten_cons, List.length_append] at ih ⊢
          omega

/-- A text gets no longer when blanks are cut off. -/
theorem length_trim (s : List Char) : (trim s).length ≤ s.length := by
  have hstart : (trimStart s).length ≤ s.length := (List.dropWhile_suffix _).length_le
  have hend : (trim s).length ≤ (trimStart s).reverse.length := by
    rw [trim, trimEnd, List.length_reverse]
    exact (List.dropWhile_suffix _).length_le
  rw [List.length_reverse] at hend
  omega

/-- A text has no more words than characters; one that has been begun counts as one more. -/
theorem length_wordsFrom (word s : List Char) :
    (wordsFrom word s).length ≤ s.length + if word.isEmpty then 0 else 1 := by
  induction s generalizing word with
  | nil =>
      rw [wordsFrom]
      cases word <;> simp
  | cons c rest ih =>
      have hbegun := ih (c :: word)
      have hempty := ih []
      rw [wordsFrom]
      cases isBlank c <;> cases word <;>
        simp only [List.isEmpty_nil, List.isEmpty_cons, List.length_cons, if_true,
          if_false, Bool.false_eq_true] at * <;> omega

/-- A text has at most as many words as characters. -/
theorem length_words (s : List Char) : (words s).length ≤ s.length :=
  length_wordsFrom [] s

end Text

/-! ## Tables -/

/-- The number of stored entries of samples. -/
def storedCount (samples : List (Sample Float)) : Nat :=
  (FeatureMap.storedEntries samples).length

/-- The entries of a first sample count with those of the others. -/
theorem storedCount_cons (s : Sample Float) (rest : List (Sample Float)) :
    storedCount (s :: rest) = s.features.entries.length + storedCount rest := by
  simp [storedCount, FeatureMap.storedEntries]

/-- Of two lists of samples the entries add up. -/
theorem storedCount_append (a b : List (Sample Float)) :
    storedCount (a ++ b) = storedCount a + storedCount b := by
  simp [storedCount, FeatureMap.storedEntries]

/-- The order of the samples does not matter to the number of entries. -/
theorem storedCount_perm {a b : List (Sample Float)} (h : a.Perm b) :
    storedCount a = storedCount b :=
  (h.flatMap_right _).length_eq

/-- Fewer samples have no more entries. -/
theorem storedCount_filter (p : Sample Float → Bool) (samples : List (Sample Float)) :
    storedCount (samples.filter p) ≤ storedCount samples := by
  induction samples with
  | nil => exact Nat.le_refl _
  | cons s rest ih =>
      rw [List.filter_cons]
      split <;> simp only [storedCount_cons] <;> omega

/-- Putting entries in order keeps their number. -/
theorem length_entries_ofEntries (entries : List (Nat × Float)) :
    (SparseVector.ofEntries entries).entries.length = entries.length := by
  simp [SparseVector.ofEntries, SparseVector.entries]

namespace Table

/-- What grows with every line by no more than its length is bounded by the length of all lines. -/
theorem foldLines_le {τ : Type} {format : DataFormat} {step : τ → List Char → Except LineFault τ}
    (size : τ → Nat)
    (hstep : ∀ t line u, step t line = .ok u → size u ≤ size t + line.length)
    {lines : List (Option (List Char))} {table found : τ} {number : Nat}
    (h : foldLines format step table number lines = .ok found) :
    size found ≤ size table + (lines.map fun line => line.getD []).flatten.length := by
  induction lines generalizing table number with
  | nil =>
      simp only [foldLines, Except.ok.injEq] at h
      simp [h]
  | cons line rest ih =>
      cases line with
      | none => simp [foldLines] at h
      | some line =>
          have htrim := Text.length_trim line
          rw [List.map_cons, List.flatten_cons, List.length_append, Option.getD_some]
          simp only [foldLines] at h
          split at h
          · have := ih h
            omega
          · split at h
            · simp at h
            · rename_i next hnext
              have := ih h
              have := hstep table (Text.trim line) next hnext
              omega

end Table

namespace Csv

/-- A row has at most one entry for each of its texts. -/
theorem length_readFeatures {column : Nat} {texts : List (List Char)}
    {entries : List (Nat × Float)} (h : readFeatures column texts = .ok entries) :
    entries.length ≤ texts.length := by
  induction texts generalizing column entries with
  | nil =>
      simp only [readFeatures, Except.ok.injEq] at h
      simp [← h]
  | cons field rest ih =>
      rw [readFeatures] at h
      split at h
      · simp at h
      · cases hrest : readFeatures (column + 1) rest with
        | error fault => simp [hrest, Except.map] at h
        | ok more =>
            have := ih hrest
            simp only [hrest, Except.map, Except.ok.injEq] at h
            rw [← h, List.length_cons]
            split
            · omega
            · rw [List.length_cons]
              omega

/-- A line stores fewer entries than it has fields, and it has a separator between any two. -/
theorem stored_readSample {width : Option Nat} {line : List Char} {found : Sample Float × Nat}
    (h : readSample width line = .ok found) :
    found.1.features.entries.length ≤ line.length := by
  have hfields : (fields line).length = line.count ',' + 1 := by
    rw [fields, List.length_map, Text.length_fields]
  have hcount : line.count ',' ≤ line.length := List.count_le_length
  simp only [readSample] at h
  split at h
  · rename_i last first others hlast hothers
    split at h
    · simp at h
    · split at h
      · simp at h
      · rename_i label hlabel
        cases hentries : readFeatures 0 (first :: others) with
        | error fault => simp [hentries, Except.map] at h
        | ok entries =>
            simp only [hentries, Except.map, Except.ok.injEq] at h
            have hlength := length_readFeatures hentries
            rw [← hothers, List.length_dropLast] at hlength
            rw [← h, length_entries_ofEntries]
            omega
  · simp at h

/-- A line adds at most as many entries as it has characters. -/
theorem stored_readLine {p q : Progress} {line : List Char} (h : readLine p line = .ok q) :
    storedCount q.samples ≤ storedCount p.samples + line.length := by
  rw [readLine] at h
  split at h
  · simp only [Except.ok.injEq] at h
    rw [← h]
    exact Nat.le_add_right _ _
  · cases hfound : readSample p.width line with
    | error fault => simp [hfound, Except.map] at h
    | ok found =>
        have := stored_readSample hfound
        simp only [hfound, Except.map, Except.ok.injEq] at h
        rw [← h, storedCount_cons]
        omega

/-- A table has at most as many entries as its content has bytes. -/
theorem stored_parse {content : ByteArray} {table : Table} (h : parse content = .ok table) :
    storedCount table.samples ≤ content.size := by
  rw [parse] at h
  split at h
  · simp at h
  · rename_i p hp
    split at h
    · simp at h
    · have hbound := Table.foldLines_le (fun p : Progress => storedCount p.samples)
        (fun _ _ _ => stored_readLine) hp
      have hlines := Text.length_contentLines content
      simp only [Except.ok.injEq] at h
      rw [← h, storedCount_perm (List.reverse_perm _)]
      simp only [storedCount, FeatureMap.storedEntries, List.flatMap_nil, List.length_nil] at *
      omega

end Csv

namespace LibSvm

/-- The entries of a line are as many as its pairs. -/
theorem length_readPairs {tokens : List (List Char)} {entries : List (Nat × Float)}
    (h : readPairs tokens = .ok entries) : entries.length = tokens.length := by
  induction tokens generalizing entries with
  | nil =>
      simp only [readPairs, Except.ok.injEq] at h
      simp [← h]
  | cons token rest ih =>
      rw [readPairs] at h
      split at h
      · simp at h
      · cases hrest : readPairs rest with
        | error fault => simp [hrest, Except.map] at h
        | ok more =>
            simp only [hrest, Except.map, Except.ok.injEq] at h
            rw [← h, List.length_cons, List.length_cons, ih hrest]

/-- A sample has at most as many entries as its line has characters. -/
theorem stored_readSample {line : List Char} {s : Sample Float} (h : readSample line = .ok s) :
    s.features.entries.length ≤ line.length := by
  have hwords := Text.length_words line
  rw [readSample] at h
  split at h
  · simp at h
  · rename_i first tokens hsplit
    rw [hsplit, List.length_cons] at hwords
    split at h
    · simp at h
    · cases hentries : readPairs tokens with
      | error fault => simp [hentries, Except.map] at h
      | ok entries =>
          have hlength := length_readPairs hentries
          simp only [hentries, Except.map, Except.ok.injEq] at h
          rw [← h, length_entries_ofEntries]
          omega

/-- A table has at most as many entries as its content has bytes. -/
theorem stored_parse {content : ByteArray} {table : Table} (h : parse content = .ok table) :
    storedCount table.samples ≤ content.size := by
  simp only [parse] at h
  split at h
  · simp at h
  · rename_i samples hsamples
    split at h
    · simp at h
    · split at h
      · simp at h
      · have hstep : ∀ (t : List (Sample Float)) line u,
            ((readSample line).map fun s => s :: t) = .ok u →
              storedCount u ≤ storedCount t + line.length := by
          intro t line u hu
          cases hs : readSample line with
          | error fault => simp [hs, Except.map] at hu
          | ok s =>
              have := stored_readSample hs
              simp only [hs, Except.map, Except.ok.injEq] at hu
              rw [← hu, storedCount_cons]
              omega
        have hbound := Table.foldLines_le storedCount hstep hsamples
        have hlines := Text.length_contentLines content
        simp only [Except.ok.injEq] at h
        rw [← h, storedCount_perm (List.reverse_perm _)]
        simp only [storedCount, FeatureMap.storedEntries, List.flatMap_nil, List.length_nil] at *
        omega

end LibSvm

/-! ## Plans -/

/-- Whether every file can be read into memory, where nothing has more bytes than a signed 64-bit
size can say. -/
def Directory.Addressable (d : Directory) : Prop :=
  ∀ path content, d.read path = .ok content → content.size < 2 ^ 63

/-- Files that are small enough can be read into memory. -/
theorem Folder.addressable_directory {f : Folder} (h : ∀ e ∈ f.files, e.2.size < 2 ^ 63) :
    f.directory.Addressable := by
  intro path content hread
  obtain ⟨name, hfile⟩ := exists_mem_of_read hread
  exact h _ hfile

namespace DataSource

/-- What is read from a file can be counted in 63 bits. -/
theorem stored_ofFile {format : DataFormat} {directory : Directory} {path : OsPath}
    {source : DataSource} (hfiles : directory.Addressable)
    (h : ofFile format directory path = .ok source) : storedCount source.samples < 2 ^ 63 := by
  rw [ofFile] at h
  split at h
  · simp at h
  · rename_i content hread
    have hsize := hfiles _ _ hread
    split at h
    · simp at h
    · rename_i table htable
      have hstored : storedCount table.samples ≤ content.size := by
        cases format with
        | csv => exact Csv.stored_parse htable
        | libsvm => exact LibSvm.stored_parse htable
      simp only [Except.ok.injEq] at h
      rw [← h]
      exact Nat.lt_of_le_of_lt hstored hsize

/-- A side of a split has no more entries than the whole. -/
theorem stored_splitSamples (samples : List (Sample Float)) (proportion : Float) (seed : UInt64)
    (part : Part) :
    storedCount (splitSamples samples proportion seed part) ≤ storedCount samples := by
  have h := storedCount_perm (split_perm samples proportion seed)
  rw [storedCount_append] at h
  cases part <;> omega

/-- A side of a source has no more entries than the source. -/
theorem stored_split {source found : DataSource} {proportion : Float} {seed : UInt64} {part : Part}
    (h : source.split proportion seed part = .ok found) :
    storedCount found.samples ≤ storedCount source.samples := by
  rw [eq_of_split h]
  exact stored_splitSamples _ _ _ _

end DataSource

/-- The samples of a source over a file have fewer than 2 ^ 63 entries. -/
theorem SourcePlan.stored_load {directory : Directory} (hfiles : directory.Addressable)
    {plan : SourcePlan} (hplan : plan.overFile = true) {source : DataSource}
    (h : plan.load directory = .ok source) : storedCount source.samples < 2 ^ 63 := by
  induction plan generalizing source with
  | file format path => exact DataSource.stored_ofFile hfiles h
  | memory names samples description => simp [overFile] at hplan
  | split inner proportion seed part ih =>
      rcases load_split h with ⟨found, hload, hsplit⟩
      exact Nat.lt_of_le_of_lt (DataSource.stored_split hsplit) (ih hplan hload)

namespace Dataset

/-- A vector gets no more entries when some are retained. -/
theorem length_entries_retain (v : SparseVector Float) (renumber : Nat → Option Nat) :
    (v.retain renumber).entries.length ≤ v.entries.length := by
  rw [SparseVector.retain, length_entries_ofEntries]
  exact List.length_filterMap_le _ _

/-- Keeping some features leaves no more entries. -/
theorem stored_keptSamples (d : Dataset) (kept : List FeatureInfo) :
    storedCount (d.keptSamples kept) ≤ storedCount d.samples := by
  rw [keptSamples]
  refine Nat.le_trans (storedCount_filter _ _) ?_
  generalize d.samples = samples
  induction samples with
  | nil => exact Nat.le_refl _
  | cons s rest ih =>
      have := length_entries_retain s.features (kept.map FeatureInfo.id).idxOf?
      simp only [List.map_cons, storedCount_cons]
      omega

/-- A feature is not counted more often than entries are stored. -/
theorem count_le_stored {names : List String} {samples : List (Sample Float)} {f : FeatureInfo}
    (h : f ∈ (FeatureMap.observe names samples).features) : f.count ≤ storedCount samples := by
  simp only [FeatureMap.observe, List.mem_mapIdx] at h
  rcases h with ⟨id, hid, rfl⟩
  have hvalues : (FeatureMap.valuesOf (FeatureMap.storedEntries samples) id).length ≤
      storedCount samples := List.length_filterMap_le _ _
  cases hv : FeatureMap.valuesOf (FeatureMap.storedEntries samples) id with
  | nil => exact Nat.zero_le _
  | cons v rest =>
      rw [hv, List.length_cons] at hvalues
      exact hvalues

/-- What a threshold keeps is stored at least so often. -/
theorem exists_count_of_atLeast {d e : Dataset} {threshold : UInt64}
    (h : d.atLeast threshold = .ok e) :
    ∃ f ∈ d.features.features, threshold.toNat ≤ f.count := by
  have hne : d.keptSamples (d.keptFeatures threshold) ≠ [] := by
    simp only [atLeast] at h
    split at h
    · simp at h
    · rename_i hsome
      simpa using hsome
  cases hkept : d.keptFeatures threshold with
  | cons f rest =>
      have hmem : f ∈ d.keptFeatures threshold := hkept ▸ List.mem_cons_self
      rw [keptFeatures, List.mem_filter, decide_eq_true_eq] at hmem
      exact ⟨f, hmem⟩
  | nil =>
      -- without features no sample keeps an entry
      refine absurd ?_ hne
      rw [hkept, keptSamples, List.filter_eq_nil_iff]
      intro s hs
      rcases List.mem_map.1 hs with ⟨t, -, rfl⟩
      have hnone : (t.features.entries.filterMap fun e =>
          (([] : List Nat).idxOf? e.1).map fun index => (index, e.2)) = [] :=
        List.filterMap_eq_nil_iff.2 (by simp)
      rw [List.map_nil, SparseVector.retain, hnone]
      simp [SparseVector.isEmpty, SparseVector.ofEntries]

end Dataset

namespace DatasetPlan

/-- The features of a dataset that a plan leads to are those of its samples. -/
theorem features_load {directory : Directory} {plan : DatasetPlan} {d : Dataset}
    (h : plan.load directory = .ok d) : ∃ names, d.features = .observe names d.samples := by
  cases plan with
  | whole plan =>
      rcases load_whole h with ⟨source, -, hd⟩
      rw [Dataset.eq_of_ofSource hd]
      exact ⟨_, rfl⟩
  | atLeast threshold inner =>
      rcases load_atLeast h with ⟨found, -, hd⟩
      rw [Dataset.eq_of_atLeast hd]
      exact ⟨_, rfl⟩

theorem stored_load {directory : Directory} (hfiles : directory.Addressable) {plan : DatasetPlan}
    (hplan : plan.source.overFile = true) {d : Dataset} (h : plan.load directory = .ok d) :
    storedCount d.samples < 2 ^ 63 := by
  induction plan generalizing d with
  | whole plan =>
      rcases load_whole h with ⟨source, hload, hd⟩
      rw [Dataset.eq_of_ofSource hd]
      exact SourcePlan.stored_load hfiles hplan hload
  | atLeast threshold inner ih =>
      rcases load_atLeast h with ⟨found, hload, hd⟩
      rw [Dataset.eq_of_atLeast hd]
      exact Nat.lt_of_le_of_lt (Dataset.stored_keptSamples found _) (ih hplan hload)

/-- Over a file every threshold that keeps something is below the half of the range of words. -/
theorem thresholds_lt {directory : Directory} (hfiles : directory.Addressable) {plan : DatasetPlan}
    (hplan : plan.source.overFile = true) {d : Dataset} (h : plan.load directory = .ok d) :
    ∀ threshold ∈ plan.thresholds, threshold.toNat < 2 ^ 63 := by
  induction plan generalizing d with
  | whole plan => simp [thresholds]
  | atLeast threshold inner ih =>
      rcases load_atLeast h with ⟨found, hload, hd⟩
      refine List.forall_mem_cons.2 ⟨?_, ih hplan hload⟩
      rcases Dataset.exists_count_of_atLeast hd with ⟨f, hf, hle⟩
      rcases features_load hload with ⟨names, hnames⟩
      rw [hnames] at hf
      have hinner : inner.source.overFile = true := hplan
      have hcount := Dataset.count_le_stored hf
      have hstored := stored_load hfiles hinner hload
      omega

end DatasetPlan
end Retrace
