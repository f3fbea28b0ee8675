import Retrace.Proofs.DenseProducts
import Retrace.Proofs.FittingSamples
import Retrace.Proofs.NumberedLines
import Retrace.Proofs.Renumbering

/-!
# The format of comma-separated files

A comma-separated file is read exactly if it has a line of values, and every line of values has as
many fields as the first line with content, at least two, all of them numbers.  Only the first line
with content can name the columns instead.  Every line of values gives one sample, which is
described by the fields alone, and the first line of values that is not in form is named.

Main results:

- Theorem `isHeader_iff`: which line names the columns.
- Theorem `exists_readSample_iff`: which lines are read as samples.
- Theorem `states_readSample`: what the sample of a line is.
- Theorem `readAll_eq`: reading a file is reading its lines of values with a known width.
- Theorem `reads_exactly_format`: which texts are read, to what, and with what fault others fail.
-/

namespace Retrace
namespace Csv

/-! ## Lines -/

/-- Whether a line names columns: it has at least two fields, and more than half of all but the last
one are no numbers. -/
def NamesColumns (line : List Char) : Prop :=
  2 ≤ (fields line).length ∧ (fields line).length - 1 <
    2 * ((fields line).dropLast.filter fun field => (Table.number? field).isNone).length

instance (line : List Char) : Decidable (NamesColumns line) :=
  inferInstanceAs (Decidable (_ ∧ _))

/-- Whether a line has the values of so many columns. -/
structure IsRow (width : Nat) (line : List Char) : Prop where
  enough : 2 ≤ (fields line).length
  width_eq : (fields line).length = width
  numbers : ∀ field ∈ fields line, (Table.number? field).isSome = true

instance (width : Nat) (line : List Char) : Decidable (IsRow width line) :=
  decidable_of_iff (2 ≤ (fields line).length ∧ (fields line).length = width ∧
      ∀ field ∈ fields line, (Table.number? field).isSome = true)
    ⟨fun h => ⟨h.1, h.2.1, h.2.2⟩, fun h => ⟨h.enough, h.width_eq, h.numbers⟩⟩

/-- Whether a sample has what a line states: the sign of the last field for a label, and under the
column of every other field its value, but for zeros. -/
structure States (line : List Char) (s : Sample Float) : Prop where
  label : ∃ last value, (fields line).getLast? = some last ∧ Table.number? last = some value ∧
    s.label = if 0 < value then 1 else -1
  strict : s.features.Strict
  entries : ∀ column value, (column, value) ∈ s.features.entries ↔
    (value == 0) = false ∧
      ∃ field, (fields line).dropLast[column]? = some field ∧ Table.number? field = some value

theorem fields_ne_nil (line : List Char) : fields line ≠ [] := by
  rw [fields, ne_eq, List.map_eq_nil_iff, ← List.length_eq_zero_iff, Text.length_fields]
  exact Nat.succ_ne_zero _

/-- A line is a header if it names columns. -/
theorem isHeader_iff (line : List Char) : isHeader line = true ↔ NamesColumns line := by
  have hempty : (fields line).dropLast.isEmpty = false ↔ 2 ≤ (fields line).length := by
    rw [← Bool.not_eq_true, List.isEmpty_iff, ← List.length_eq_zero_iff, List.length_dropLast]
    omega
  simp only [isHeader, NamesColumns, Bool.and_eq_true, Bool.not_eq_true', hempty,
    decide_eq_true_eq, List.length_dropLast, Nat.mul_comm 2]

/-! ## Values -/

/-- All texts of features that are read are numbers. -/
theorem number?_of_readFeatures {column : Nat} {texts : List (List Char)}
    {entries : List (Nat × Float)} (h : readFeatures column texts = .ok entries) :
    ∀ field ∈ texts, (Table.number? field).isSome = true := by
  induction texts generalizing column entries with
  | nil => simp
  | cons field rest ih =>
      rw [readFeatures] at h
      split at h
      · simp at h
      · rename_i value hvalue
        cases hrest : readFeatures (column + 1) rest with
        | error fault => simp [hrest, Except.map] at h
        | ok more => exact List.forall_mem_cons.2 ⟨by rw [hvalue]; rfl, ih hrest⟩

/-- The entry of a field at its column: none for a zero. -/
def entryOf (field : List Char × Nat) : Option (Nat × Float) :=
  (Table.number? field.1).bind fun value => if value == 0 then none else some (field.2, value)

/-- Fields that are numbers give their entries. -/
theorem readFeatures_ok {texts : List (List Char)}
    (h : ∀ field ∈ texts, (Table.number? field).isSome = true) (column : Nat) :
    readFeatures column texts = .ok ((texts.zipIdx column).filterMap entryOf) := by
  induction texts generalizing column with
  | nil => rfl
  | cons field rest ih =>
      obtain ⟨hfield, hrest⟩ := List.forall_mem_cons.1 h
      obtain ⟨value, hvalue⟩ := Option.isSome_iff_exists.1 hfield
      rw [readFeatures, hvalue, ih hrest (column + 1), List.zipIdx_cons, List.filterMap_cons]
      simp only [entryOf, hvalue, Option.bind_some, Except.map]
      cases value == 0 <;> rfl

/-- A field gives an entry if it is a number other than zero. -/
theorem entryOf_eq_some_iff {field : List Char × Nat} {column : Nat} {value : Float} :
    entryOf field = some (column, value) ↔
      field.2 = column ∧ (value == 0) = false ∧ Table.number? field.1 = some value := by
  rw [entryOf, Option.bind_eq_some_iff]
  constructor
  · rintro ⟨found, hfound, hentry⟩
    split at hentry
    · simp at hentry
    · rename_i hne
      obtain ⟨rfl, rfl⟩ := Prod.mk.inj (Option.some.inj hentry)
      exact ⟨rfl, by simpa using hne, hfound⟩
  · rintro ⟨rfl, hne, hvalue⟩
    exact ⟨value, hvalue, by rw [hne]; rfl⟩

/-- The entries of fields stand in the order of the columns. -/
theorem pairwise_filterMap_entryOf (texts : List (List Char)) (column : Nat) :
    ((texts.zipIdx column).filterMap entryOf).Pairwise fun a b => a.1 < b.1 := by
  have hcolumns : (texts.zipIdx column).Pairwise fun a b => a.2 < b.2 := by
    rw [← List.pairwise_map, List.zipIdx_map_snd]
    exact List.pairwise_lt_range'
  refine List.Pairwise.filterMap entryOf ?_ hcolumns
  rintro a b hab e he f hf
  rw [← (entryOf_eq_some_iff.1 he).1, ← (entryOf_eq_some_iff.1 hf).1]
  exact hab

/-! ## Samples -/

/-- A line in form is read as the sample that it states. -/
theorem states_readSample {width : Nat} {line : List Char} (h : IsRow width line) :
    ∃ s, readSample (some width) line = .ok (s, width) ∧ States line s := by
  obtain ⟨last, hlast⟩ : ∃ last, (fields line).getLast? = some last :=
    ⟨_, List.getLast?_eq_some_getLast (fields_ne_nil line)⟩
  obtain ⟨label, hlabel⟩ := Option.isSome_iff_exists.1
    (h.numbers last (List.mem_of_getLast? hlast))
  obtain ⟨first, others, hfeatures⟩ : ∃ first others, (fields line).dropLast = first :: others := by
    refine List.exists_cons_of_length_pos ?_
    have henough := h.enough
    rw [List.length_dropLast]
    omega
  have hread := readFeatures_ok
    (fun field hfield => h.numbers field (List.dropLast_subset _ hfield)) 0
  have hordered := pairwise_filterMap_entryOf (fields line).dropLast 0
  have hentries := SparseVector.entries_ofEntries (hordered.imp Nat.le_of_lt)
  refine ⟨⟨.ofEntries (((fields line).dropLast.zipIdx 0).filterMap entryOf), binaryLabel label⟩,
    ?_, ⟨last, label, hlast, hlabel, binaryLabel_eq_sign label⟩, ?_, fun column value => ?_⟩
  · have hwidth : (some width).filter (· ≠ width) = none := by simp [Option.filter]
    rw [hfeatures] at hread ⊢
    simp only [readSample, hlast, hfeatures, hwidth, hlabel, hread, Except.map, h.width_eq]
  · refine ⟨(SparseVector.wellFormed_ofEntries _).1, ?_⟩
    rw [← SparseVector.map_fst_entries (SparseVector.wellFormed_ofEntries _), hentries,
      List.pairwise_map]
    exact hordered
  · simp only [hentries, List.mem_filterMap, Prod.exists, List.mk_mem_zipIdx_iff_getElem?,
      entryOf_eq_some_iff]
    constructor
    · rintro ⟨field, place, hfield, rfl, hne, hvalue⟩
      exact ⟨hne, field, hfield, hvalue⟩
    · rintro ⟨hne, field, hfield, hvalue⟩
      exact ⟨field, column, hfield, rfl, hne, hvalue⟩

/-- Only a line in form is read as a sample. -/
theorem isRow_of_readSample {width : Nat} {line : List Char} {found : Sample Float × Nat}
    (h : readSample (some width) line = .ok found) : IsRow width line := by
  simp only [readSample] at h
  split at h
  · rename_i last first others hlast hfeatures
    split at h
    · simp at h
    · rename_i hwidth
      split at h
      · simp at h
      · rename_i label hlabel
        cases hread : readFeatures 0 (first :: others) with
        | error fault => simp [hread, Except.map] at h
        | ok entries =>
            have hsplit : fields line = (first :: others) ++ [last] := by
              rw [← hfeatures]
              exact (List.dropLast_append_getLast? last hlast).symm
            refine ⟨?_, ?_, fun field hfield => ?_⟩
            · simp [hsplit]
            · have hsame : width = (fields line).length := by simpa [Option.filter] using hwidth
              exact hsame.symm
            · rw [hsplit] at hfield
              rcases List.mem_append.1 hfield with hfield | hfield
              · exact number?_of_readFeatures hread field hfield
              · rw [List.mem_singleton.1 hfield, hlabel]
                rfl
  · simp at h

/-- The lines that are read as samples are those in form. -/
theorem exists_readSample_iff {width : Nat} {line : List Char} :
    (∃ s, (readSample (some width) line).map Prod.fst = .ok s) ↔ IsRow width line := by
  constructor
  · rintro ⟨s, hs⟩
    cases h : readSample (some width) line with
    | error fault => simp [h, Except.map] at hs
    | ok found => exact isRow_of_readSample h
  · intro h
    obtain ⟨s, hs, -⟩ := states_readSample h
    exact ⟨s, by rw [hs]; rfl⟩

/-- The sample that is read from a line is the one that it states. -/
theorem states_of_readSample {width : Nat} {line : List Char} {s : Sample Float}
    (h : (readSample (some width) line).map Prod.fst = .ok s) : States line s := by
  obtain ⟨t, ht, hstates⟩ := states_readSample (exists_readSample_iff.1 ⟨s, h⟩)
  rw [ht] at h
  exact Except.ok.inj h ▸ hstates

/-! ## Files -/

/-- The lines of values among the lines that have content: all but a header. -/
def rows : List (List Char × Nat) → List (List Char × Nat)
  | [] => []
  | first :: rest => if NamesColumns first.1 then rest else first :: rest

/-- The number of fields of the first line that has content: a header or a line of values. -/
def width : List (List Char × Nat) → Nat
  | [] => 0
  | first :: _ => (fields first.1).length

/-- The names that a header gives the columns, if there is one. -/
def header : List (List Char × Nat) → Option (List String)
  | [] => none
  | first :: _ =>
      if NamesColumns first.1 then some ((fields first.1).map String.ofList) else none

/-- The names of the features: those of the header without that of the label, or default names. -/
def names (lines : List (List Char × Nat)) : List String :=
  match header lines with
  | some names => names.take (width lines - 1)
  | none => (List.range (width lines - 1)).map defaultFeatureName

/-- Whether every line of values is in form. -/
def AllRows (lines : List (List Char × Nat)) : Prop :=
  ∀ row ∈ rows lines, IsRow (width lines) row.1

instance (lines : List (List Char × Nat)) : Decidable (AllRows lines) :=
  inferInstanceAs (Decidable (∀ row ∈ rows lines, IsRow (width lines) row.1))

/-- What has been read when the width is known and some samples are there, the last one first. -/
def progress (lines : List (List Char × Nat)) (samples : List (Sample Float)) : Progress :=
  ⟨header lines, some (width lines), samples⟩

/-- A line behind the first one is read as a row of the same width. -/
theorem readLine_progress (lines : List (List Char × Nat)) (samples : List (Sample Float))
    (line : List Char) :
    readLine (progress lines samples) line =
      ((readSample (some (width lines)) line).map Prod.fst).map fun s =>
        progress lines (s :: samples) := by
  simp only [readLine, progress, Option.isNone_some, Bool.false_and, Bool.false_eq_true, if_false]
  cases readSample (some (width lines)) line <;> rfl

/-- The width of a line is what it is expected to be if nothing is expected yet. -/
theorem readSample_none (line : List Char) :
    readSample none line = readSample (some (fields line).length) line := by
  simp [readSample, Option.filter]

/-- Reading a file is reading its lines of values with a known width. -/
theorem readAll_eq (lines : List (List Char × Nat)) (h : lines ≠ []) :
    Table.readAll .csv readLine ⟨none, none, []⟩ lines =
      Table.readAll .csv readLine (progress lines []) (rows lines) := by
  obtain ⟨⟨line, number⟩, rest, rfl⟩ := List.exists_cons_of_ne_nil h
  by_cases hheader : NamesColumns line
  · have hstep : readLine ⟨none, none, []⟩ line = .ok (progress ((line, number) :: rest) []) := by
      simp [readLine, (isHeader_iff line).2 hheader, progress, header, width, hheader]
    rw [rows, if_pos hheader]
    simp only [Table.readAll, hstep]
  · have hstep : readLine ⟨none, none, []⟩ line =
        readLine (progress ((line, number) :: rest) []) line := by
      have hnone : isHeader line = false := by rwa [← Bool.not_eq_true, isHeader_iff]
      rw [readLine_progress]
      simp only [readLine, hnone, Bool.and_false, Bool.false_eq_true, if_false, readSample_none]
      cases hread : readSample (some (fields line).length) line with
      | error fault => simp [width, hread, Except.map]
      | ok found =>
          have hlength := (fits_readSample hread).2 _ rfl
          simp [width, hread, Except.map, progress, header, hheader, hlength.symm]
    rw [rows, if_neg hheader]
    simp only [Table.readAll, hstep]

/-- What is done with what has been read of all lines. -/
def finish (p : Progress) : Except TableFault Table :=
  if p.samples.isEmpty then .error .noSamples
  else
    let count := p.width.getD 1 - 1
    let names :=
      match p.header with
      | some names => names.take count
      | none => (List.range count).map defaultFeatureName
    .ok ⟨names, p.samples.reverse⟩

/-- The content of a text is read line by line and then finished. -/
theorem parse_toUTF8 (text : String) :
    parse text.toUTF8 =
      match Table.readAll .csv readLine ⟨none, none, []⟩ (Table.contents text) with
      | .error fault => .error fault
      | .ok p => finish p := by
  rw [parse, Table.contentLines_toUTF8, Table.foldLines_eq_readAll]
  rfl

/-- At the end the table has the names and the samples in their order. -/
theorem finish_progress {lines : List (List Char × Nat)} {samples : List (Sample Float)}
    (h : samples ≠ []) :
    finish (progress lines samples) = .ok ⟨names lines, samples.reverse⟩ := by
  rw [finish, if_neg (by simpa [progress] using h)]
  rfl

/-- A text without a line of values has no samples. -/
theorem parse_of_rows_eq_nil {text : String} (h : rows (Table.contents text) = []) :
    parse text.toUTF8 = .error .noSamples := by
  rw [parse_toUTF8]
  cases hlines : Table.contents text with
  | nil => rfl
  | cons first rest =>
      rw [readAll_eq _ (List.cons_ne_nil _ _), ← hlines, h]
      rfl

/-- Where there are rows there are lines. -/
theorem contents_ne_nil {lines : List (List Char × Nat)} (h : rows lines ≠ []) : lines ≠ [] := by
  rintro rfl
  exact h rfl

/-- A text whose lines of values are all in form is read as the samples that they state. -/
theorem parse_of_allRows {text : String} (hrows : rows (Table.contents text) ≠ [])
    (h : AllRows (Table.contents text)) :
    ∃ samples, parse text.toUTF8 = .ok ⟨names (Table.contents text), samples⟩ ∧
      List.Forall₂ (fun row s => States row.1 s) (rows (Table.contents text)) samples := by
  obtain ⟨samples, hsamples, hread⟩ := Table.readAll_ok .csv
    (progress (Table.contents text)) (readLine_progress (Table.contents text))
    (fun row hrow => exists_readSample_iff.2 (h row hrow)) []
  refine ⟨samples, ?_, hsamples.imp fun row s => states_of_readSample⟩
  have hsome : samples.reverse ≠ [] := by
    rw [ne_eq, List.reverse_eq_nil_iff]
    rintro rfl
    exact hrows (List.forall₂_nil_right_iff.1 hsamples)
  rw [parse_toUTF8, readAll_eq _ (contents_ne_nil hrows), hread, List.append_nil]
  exact (finish_progress hsome).trans (by rw [List.reverse_reverse])

/-- The first line of values that is not in form is named. -/
theorem parse_of_not_allRows {text : String} (h : ¬AllRows (Table.contents text)) :
    ∃ number fault, Table.FirstWithout (IsRow (width (Table.contents text)))
      (rows (Table.contents text)) number ∧
      parse text.toUTF8 = .error (.line .csv number fault) := by
  obtain ⟨number, hfirst⟩ := (Table.forall_or_firstWithout _ _).resolve_left h
  have hrows : rows (Table.contents text) ≠ [] := by
    intro hnil
    simp [AllRows, hnil] at h
  have hread : IsRow (width (Table.contents text)) =
      fun line => ∃ s,
        (readSample (some (width (Table.contents text))) line).map Prod.fst = .ok s :=
    funext fun line => propext exists_readSample_iff.symm
  obtain ⟨fault, hfault⟩ := Table.readAll_error .csv
    (progress (Table.contents text)) (readLine_progress (Table.contents text)) (hread ▸ hfirst) []
  refine ⟨number, fault, hfirst, ?_⟩
  rw [parse_toUTF8, readAll_eq _ (contents_ne_nil hrows), hfault]

/-- Only a text with lines of values that are all in form is read. -/
theorem allRows_of_parse {text : String} {table : Table} (h : parse text.toUTF8 = .ok table) :
    rows (Table.contents text) ≠ [] ∧ AllRows (Table.contents text) := by
  constructor
  · intro hnil
    rw [parse_of_rows_eq_nil hnil] at h
    cases h
  · by_contra hnot
    obtain ⟨number, fault, -, herror⟩ := parse_of_not_allRows hnot
    rw [herror] at h
    cases h

/-- A text is read as another one with the same lines with content, unless there is a fault. -/
theorem parse_ok_congr {text other : String}
    (h : (Table.contents text).map Prod.fst = (Table.contents other).map Prod.fst) {table : Table}
    (hparse : parse text.toUTF8 = .ok table) : parse other.toUTF8 = .ok table := by
  rw [parse_toUTF8] at hparse ⊢
  cases hread : Table.readAll .csv readLine ⟨none, none, []⟩ (Table.contents text) with
  | error fault => simp [hread] at hparse
  | ok p =>
      rw [hread] at hparse
      rw [Table.readAll_ok_congr h hread]
      exact hparse

/-- A text is read exactly if it has lines of values and all of them are in form.  Then there is one
sample for each of them, which it states, with no index beyond the names, and the names are those of
the header or default ones.  A text without a line of values has no samples; otherwise the first
line of values that is not in form is named by its number.  Lines that are passed over can be put in
or left out. -/
theorem reads_exactly_format (text : String) :
    ((∃ table, parse text.toUTF8 = .ok table) ↔
      rows (Table.contents text) ≠ [] ∧ AllRows (Table.contents text)) ∧
    (∀ table, parse text.toUTF8 = .ok table →
      List.Forall₂ (fun row s => States row.1 s) (rows (Table.contents text)) table.samples ∧
      (∀ s ∈ table.samples, ∀ i ∈ s.features.indices, i < table.names.length) ∧
      table.names = names (Table.contents text)) ∧
    (rows (Table.contents text) = [] → parse text.toUTF8 = .error .noSamples) ∧
    (¬AllRows (Table.contents text) → ∃ number fault,
      Table.FirstWithout (IsRow (width (Table.contents text))) (rows (Table.contents text)) number ∧
      parse text.toUTF8 = .error (.line .csv number fault)) ∧
    ∀ (other : String) (before skipped after : List (List Char)),
      Text.lines text.toList = before ++ after →
      Text.lines other.toList = before ++ skipped ++ after →
      (∀ line ∈ skipped, Table.isPassedOver (Text.trim line) = true) →
      ∀ table, parse text.toUTF8 = .ok table ↔ parse other.toUTF8 = .ok table := by
  refine ⟨⟨fun ⟨table, hparse⟩ => allRows_of_parse hparse, fun ⟨hrows, hall⟩ => ?_⟩,
    fun table hparse => ?_, parse_of_rows_eq_nil, parse_of_not_allRows,
    fun other before skipped after htext hother hskipped table => ?_⟩
  · obtain ⟨samples, hparse, -⟩ := parse_of_allRows hrows hall
    exact ⟨_, hparse⟩
  · obtain ⟨hrows, hall⟩ := allRows_of_parse hparse
    obtain ⟨samples, hsamples, hstates⟩ := parse_of_allRows hrows hall
    have hfits := fits_parse hparse
    obtain rfl := Except.ok.inj (hsamples.symm.trans hparse)
    exact ⟨hstates, fun s hs => (hfits s hs).index_lt, rfl⟩
  · have hsame := Table.map_fst_contents_of_passedOver htext hother hskipped
    exact ⟨parse_ok_congr hsame, parse_ok_congr hsame.symm⟩

/-- A text with a header and two lines of values. -/
def heights : String := "height,width,label\n1.5,0.0,2\n3.0,4.0,-1\n"

/-- The same text with a remark and a blank line. -/
def remarked : String := "height,width,label\n# metres\n\n1.5,0.0,2\n3.0,4.0,-1\n"

/-- The two lines of values are read with the names of the header, with a remark as without it; a
word among the values is a fault in its line, and a header alone has no samples. -/
theorem reads_heights :
    (∃ table, parse heights.toUTF8 = .ok table ∧ table.names = ["height", "width"] ∧
      table.samples.length = 2 ∧ parse remarked.toUTF8 = .ok table) ∧
    (∃ fault, parse "height,label\n\ntall,1\n".toUTF8 = .error (.line .csv 3 fault)) ∧
    parse "height,label\n".toUTF8 = .error .noSamples := by
  refine ⟨?_, ?_, (reads_exactly_format "height,label\n").2.2.1 (by decide +kernel)⟩
  · obtain ⟨hread, hstates, -, -, hskip⟩ := reads_exactly_format heights
    obtain ⟨table, hparse⟩ := hread.2 (by decide +kernel)
    obtain ⟨hsamples, -, hnames⟩ := hstates table hparse
    have hsame := hskip remarked ["height,width,label".toList] ["# metres".toList, []]
      ["1.5,0.0,2".toList, "3.0,4.0,-1".toList] (by decide +kernel) (by decide +kernel)
      (by decide +kernel) table
    exact ⟨table, hparse, hnames.trans (by decide +kernel),
      hsamples.length_eq.symm.trans (by decide +kernel), hsame.1 hparse⟩
  · obtain ⟨number, fault, ⟨before, line, after, hsplit, -⟩, hparse⟩ :=
      (reads_exactly_format "height,label\n\ntall,1\n").2.2.2.1 (by decide +kernel)
    have hrows : rows (Table.contents "height,label\n\ntall,1\n") = [("tall,1".toList, 3)] := by
      decide +kernel
    have hmem : (line, number) ∈ [("tall,1".toList, 3)] := by
      rw [← hrows, hsplit]
      simp
    obtain ⟨-, rfl⟩ := Prod.mk.inj (List.mem_singleton.1 hmem)
    exact ⟨fault, hparse⟩

end Csv
end Retrace
