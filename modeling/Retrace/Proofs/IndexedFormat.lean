import Retrace.Proofs.FittingSamples
import Retrace.Proofs.NumberedLines
import Retrace.Proofs.StoredValues

/-!
# The format of files of indexed values

A file of indexed values is read exactly if it has a line with content, and every such line is a
label followed by pairs of an index, which counts from one, and a value.  Every line gives one
sample, with the pairs sorted by their indices and pairs of one index in their order, so that only
that order matters.  The greatest index says how many features there are; a list of that many names
has to fit into memory.

Main results:

- Theorem `readPair_ok_iff`: which tokens are pairs.
- Theorem `readSample_ok_iff`: which lines are read as samples, and as which ones.
- Theorem `dimension_spec`: the number of features is the greatest index.
- Theorem `reads_exactly_indexed_format`: which texts are read, to what, and with what fault others
  fail.
-/

namespace Retrace
namespace LibSvm

open FeatureMap (valuesOf valuesOf_cons)

/-! ## Tokens -/

/-- Whether a token is a pair of an index, counted from one, and a value. -/
def IsPair (token : List Char) (pair : Nat × Float) : Prop :=
  ∃ index value i, token = index ++ ':' :: value ∧ Decimal.readUInt64 index = .ok i ∧
    i.toNat = pair.1 ∧ 0 < pair.1 ∧ Table.number? value = some pair.2

/-- A pair with its index counted from zero. -/
def lower (pair : Nat × Float) : Nat × Float :=
  (pair.1 - 1, pair.2)

theorem notMem_of_readBelow {bound n m : Nat} {fault : Decimal.NumberFault} {s : List Char}
    (h : Decimal.readBelow bound fault n s = .ok m) : ':' ∉ s := by
  induction s generalizing n with
  | nil => simp
  | cons c rest ih =>
      rw [Decimal.readBelow] at h
      split at h
      · simp at h
      · rename_i hdigit
        split at h
        · simp at h
        · rw [List.mem_cons, not_or]
          refine ⟨?_, ih h⟩
          rintro rfl
          exact hdigit rfl

/-- No number has a colon. -/
theorem notMem_of_readUInt64 {s : List Char} {i : UInt64} (h : Decimal.readUInt64 s = .ok i) :
    ':' ∉ s := by
  cases hnat : Decimal.readNat (UInt64.size - 1) s with
  | error fault =>
      rw [Decimal.readUInt64, hnat] at h
      cases h
  | ok n =>
      unfold Decimal.readNat at hnat
      split at hnat
      · simp at hnat
      · simp at hnat
      · simp at hnat
      · simpa using notMem_of_readBelow hnat
      · exact notMem_of_readBelow hnat

/-- A text is cut at its first separator. -/
theorem cutAt_append {separator : Char} {before after : List Char} (h : separator ∉ before) :
    Text.cutAt separator (before ++ separator :: after) = some (before, after) := by
  have hkept : ∀ c ∈ before, (c != separator) = true := by
    intro c hc
    rw [bne_iff_ne]
    rintro rfl
    exact h hc
  rw [Text.cutAt, List.dropWhile_append_of_pos hkept, List.takeWhile_append_of_pos hkept]
  simp

/-- A text that is cut is made of its parts and the separator. -/
theorem eq_of_cutAt {separator : Char} {s before after : List Char}
    (h : Text.cutAt separator s = some (before, after)) : s = before ++ separator :: after := by
  rw [Text.cutAt] at h
  split at h
  · simp at h
  · rename_i c rest hdrop
    obtain ⟨rfl, rfl⟩ := Prod.mk.inj (Option.some.inj h)
    obtain rfl : c = separator := by
      have hhead := List.head?_dropWhile_not (· != separator) s
      rw [hdrop] at hhead
      simpa using hhead
    rw [← hdrop, List.takeWhile_append_dropWhile]

/-- A token is read as a pair exactly if it is one, with the index lowered by one. -/
theorem readPair_ok_iff {token : List Char} {entry : Nat × Float} :
    readPair token = .ok entry ↔ ∃ pair, IsPair token pair ∧ lower pair = entry := by
  constructor
  · intro h
    rw [readPair] at h
    split at h
    · simp at h
    · rename_i index value hcut
      split at h
      · simp at h
      · rename_i i hi
        split at h
        · simp at h
        · rename_i x hx
          split at h
          · simp at h
          · rename_i hne
            have hpos : 0 < i.toNat := by
              rw [Nat.pos_iff_ne_zero]
              exact fun hzero => hne (UInt64.toNat_inj.1 hzero)
            exact ⟨(i.toNat, x), ⟨index, value, i, eq_of_cutAt hcut, hi, rfl, hpos, hx⟩,
              Except.ok.inj h⟩
  · rintro ⟨⟨n, x⟩, ⟨index, value, i, rfl, hi, rfl, hpos, hx⟩, rfl⟩
    have hne : i ≠ 0 := by
      rintro rfl
      exact Nat.lt_irrefl 0 hpos
    rw [readPair, cutAt_append (notMem_of_readUInt64 hi)]
    simp only [hi, hx, if_neg hne, lower]

theorem IsPair.pos {token : List Char} {pair : Nat × Float} (h : IsPair token pair) :
    0 < pair.1 := by
  obtain ⟨-, -, -, -, -, -, hpos, -⟩ := h
  exact hpos

/-- Positive indices may be lowered without losing any. -/
theorem lower_inj {pair other : Nat × Float} (hpair : 0 < pair.1) (hother : 0 < other.1)
    (h : lower pair = lower other) : pair = other := by
  simp only [lower, Prod.mk.injEq] at h
  exact Prod.ext (by omega) h.2

/-- A token is at most one pair. -/
theorem IsPair.unique {token : List Char} {pair other : Nat × Float} (h : IsPair token pair)
    (h' : IsPair token other) : pair = other := by
  have hread := readPair_ok_iff.2 ⟨pair, h, rfl⟩
  rw [readPair_ok_iff.2 ⟨other, h', rfl⟩, Except.ok.injEq] at hread
  exact lower_inj h.pos h'.pos hread.symm

instance (token : List Char) (pair : Nat × Float) : Decidable (IsPair token pair) :=
  decidable_of_iff (readPair token = .ok (lower pair) ∧ 0 < pair.1) <| by
    refine ⟨fun ⟨hread, hpos⟩ => ?_, fun h => ⟨readPair_ok_iff.2 ⟨pair, h, rfl⟩, h.pos⟩⟩
    obtain ⟨other, hother, hlower⟩ := readPair_ok_iff.1 hread
    exact lower_inj hother.pos hpos hlower ▸ hother

/-- Tokens are read if each of them is a pair, and the indices are lowered. -/
theorem readPairs_ok_iff {tokens : List (List Char)} {entries : List (Nat × Float)} :
    readPairs tokens = .ok entries ↔
      ∃ pairs, List.Forall₂ IsPair tokens pairs ∧ pairs.map lower = entries := by
  induction tokens generalizing entries with
  | nil =>
      simp [readPairs, List.forall₂_nil_left_iff, eq_comm]
  | cons token rest ih =>
      constructor
      · intro h
        rw [readPairs] at h
        split at h
        · simp at h
        · rename_i entry hentry
          cases hrest : readPairs rest with
          | error fault => simp [hrest, Except.map] at h
          | ok more =>
              obtain ⟨pair, hpair, rfl⟩ := readPair_ok_iff.1 hentry
              obtain ⟨pairs, hpairs, rfl⟩ := ih.1 hrest
              rw [hrest] at h
              exact ⟨pair :: pairs, .cons hpair hpairs, Except.ok.inj h⟩
      · rintro ⟨pairs, hpairs, rfl⟩
        cases hpairs with
        | cons hpair hmore =>
            rw [readPairs, readPair_ok_iff.2 ⟨_, hpair, rfl⟩, ih.2 ⟨_, hmore, rfl⟩]
            rfl

/-! ## Lines -/

/-- Whether a line is a label and then these pairs. -/
def Has (line : List Char) (label : Float) (pairs : List (Nat × Float)) : Prop :=
  ∃ first tokens, Text.words line = first :: tokens ∧ Table.number? first = some label ∧
    List.Forall₂ IsPair tokens pairs

/-- Whether a line is a label and then pairs. -/
def IsLine (line : List Char) : Prop :=
  ∃ label pairs, Has line label pairs

/-- Whether a sample has the sign of a label for its label, and for its entries the pairs with their
indices lowered by one, sorted by index, the values under one index in the order of the pairs. -/
structure Gives (label : Float) (pairs : List (Nat × Float)) (s : Sample Float) : Prop where
  label : s.label = if 0 < label then 1 else -1
  wellFormed : s.features.WellFormed
  perm : s.features.entries.Perm (pairs.map lower)
  stable : ∀ index, valuesOf s.features.entries index = valuesOf (pairs.map lower) index

/-- A line is read as a sample exactly if it is a label and then pairs. -/
theorem readSample_ok_iff {line : List Char} {s : Sample Float} :
    readSample line = .ok s ↔ ∃ label pairs, Has line label pairs ∧
      s = ⟨.ofEntries (pairs.map lower), binaryLabel label⟩ := by
  constructor
  · intro h
    rw [readSample] at h
    split at h
    · simp at h
    · rename_i first tokens hwords
      split at h
      · simp at h
      · rename_i label hlabel
        cases hread : readPairs tokens with
        | error fault => simp [hread, Except.map] at h
        | ok entries =>
            obtain ⟨pairs, hpairs, rfl⟩ := readPairs_ok_iff.1 hread
            rw [hread] at h
            exact ⟨label, pairs, ⟨first, tokens, hwords, hlabel, hpairs⟩, (Except.ok.inj h).symm⟩
  · rintro ⟨label, pairs, ⟨first, tokens, hwords, hlabel, hpairs⟩, rfl⟩
    rw [readSample, hwords]
    simp only [hlabel, readPairs_ok_iff.2 ⟨pairs, hpairs, rfl⟩, Except.map]

/-- A line gives a sample exactly if it has the form of one. -/
theorem exists_readSample_iff {line : List Char} :
    (∃ s, readSample line = .ok s) ↔ IsLine line := by
  constructor
  · rintro ⟨s, hs⟩
    obtain ⟨label, pairs, hhas, -⟩ := readSample_ok_iff.1 hs
    exact ⟨label, pairs, hhas⟩
  · rintro ⟨label, pairs, hhas⟩
    exact ⟨_, readSample_ok_iff.2 ⟨label, pairs, hhas, rfl⟩⟩

instance (line : List Char) : Decidable (IsLine line) :=
  decidable_of_iff ((readSample line).isOk = true) <| by
    rw [← exists_readSample_iff]
    cases readSample line <;> simp [Except.isOk, Except.toBool]

/-- The sample of a line has the sign of its label and its pairs in order. -/
theorem gives_of_readSample {line : List Char} {s : Sample Float} (h : readSample line = .ok s) :
    ∃ label pairs, Has line label pairs ∧ Gives label pairs s := by
  obtain ⟨label, pairs, hhas, rfl⟩ := readSample_ok_iff.1 h
  refine ⟨label, pairs, hhas, binaryLabel_eq_sign label, SparseVector.wellFormed_ofEntries _, ?_,
    SparseVector.valuesOf_entries_ofEntries _⟩
  rw [SparseVector.entries_ofEntries_mergeSort]
  exact List.mergeSort_perm _ _

/-! ## Order of tokens -/

/-- Whether lists of pairs differ in no more than the order of pairs with different indices. -/
def Rearranged (pairs others : List (Nat × Float)) : Prop :=
  ∀ index, valuesOf pairs index = valuesOf others index

/-- Any order of pairs whose indices do not repeat is a rearrangement. -/
theorem rearranged_of_perm {pairs others : List (Nat × Float)} (h : pairs.Perm others)
    (hnodup : (pairs.map Prod.fst).Nodup) : Rearranged pairs others := by
  intro index
  induction h with
  | nil => rfl
  | cons pair _ ih =>
      rw [List.map_cons, List.nodup_cons] at hnodup
      rw [valuesOf_cons, valuesOf_cons, ih hnodup.2]
  | swap pair other rest =>
      have hne : other.1 ≠ pair.1 := by
        intro heq
        simp [heq] at hnodup
      simp only [valuesOf_cons]
      split
      · rename_i hother
        have hpair : ¬pair.1 = index := fun hpair => hne (hother.trans hpair.symm)
        simp only [if_neg hpair]
      · rfl
  | trans hfirst _ ih ih' =>
      exact (ih hnodup).trans (ih' ((hfirst.map Prod.fst).nodup_iff.1 hnodup))

/-- The values of an index are those of the pairs with the next one. -/
theorem valuesOf_map_lower {pairs : List (Nat × Float)} (h : ∀ pair ∈ pairs, 0 < pair.1)
    (index : Nat) : valuesOf (pairs.map lower) index = valuesOf pairs (index + 1) := by
  induction pairs with
  | nil => rfl
  | cons pair rest ih =>
      obtain ⟨hpos, hrest⟩ := List.forall_mem_cons.1 h
      have hsame : pair.1 - 1 = index ↔ pair.1 = index + 1 := by omega
      rw [List.map_cons, valuesOf_cons, valuesOf_cons, ih hrest]
      simp only [lower, hsame]

theorem pos_of_forall₂ {tokens : List (List Char)} {pairs : List (Nat × Float)}
    (h : List.Forall₂ IsPair tokens pairs) : ∀ pair ∈ pairs, 0 < pair.1 := by
  induction h with
  | nil => simp
  | cons hpair _ ih => exact List.forall_mem_cons.2 ⟨hpair.pos, ih⟩

/-- The pairs of permuted tokens are permuted. -/
theorem perm_of_forall₂ {tokens others : List (List Char)} {pairs pairs' : List (Nat × Float)}
    (hpairs : List.Forall₂ IsPair tokens pairs) (hothers : List.Forall₂ IsPair others pairs')
    (h : tokens.Perm others) : pairs.Perm pairs' := by
  obtain ⟨middle, hmiddle, hperm⟩ := List.perm_comp_forall₂ h hothers
  have hunique : Relator.RightUnique IsPair := fun _ _ _ hpair hother => hpair.unique hother
  exact hunique.forall₂ hpairs hmiddle ▸ hperm

/-- Lines whose tokens are rearranged are read alike. -/
theorem readSample_of_rearranged {line other : List Char} {first : List Char}
    {tokens others : List (List Char)} {pairs pairs' : List (Nat × Float)}
    (hline : Text.words line = first :: tokens) (hother : Text.words other = first :: others)
    (hpairs : List.Forall₂ IsPair tokens pairs) (hothers : List.Forall₂ IsPair others pairs')
    (h : Rearranged pairs pairs') : readSample line = readSample other := by
  have hentries : SparseVector.ofEntries (pairs.map lower) = .ofEntries (pairs'.map lower) := by
    refine SparseVector.eq_of_valuesOf_entries (SparseVector.wellFormed_ofEntries _)
      (SparseVector.wellFormed_ofEntries _) fun index => ?_
    rw [SparseVector.valuesOf_entries_ofEntries, SparseVector.valuesOf_entries_ofEntries,
      valuesOf_map_lower (pos_of_forall₂ hpairs), valuesOf_map_lower (pos_of_forall₂ hothers),
      h (index + 1)]
  rw [readSample, readSample, hline, hother]
  simp only [readPairs_ok_iff.2 ⟨pairs, hpairs, rfl⟩, readPairs_ok_iff.2 ⟨pairs', hothers, rfl⟩,
    Except.map, hentries]

/-- Whether lines have one label and the same tokens, which are pairs and stand in an order that
differs for pairs with different indices alone; if no index repeats, in any order. -/
def Permuted (line other : List Char) : Prop :=
  ∃ first tokens others pairs pairs', Text.words line = first :: tokens ∧
    Text.words other = first :: others ∧ tokens.Perm others ∧
    List.Forall₂ IsPair tokens pairs ∧ List.Forall₂ IsPair others pairs' ∧
    ((pairs.map Prod.fst).Nodup ∨ Rearranged pairs pairs')

/-- The order of the pairs of a line does not matter. -/
theorem readSample_of_permuted {line other : List Char} (h : Permuted line other) :
    readSample line = readSample other := by
  obtain ⟨first, tokens, others, pairs, pairs', hline, hother, hperm, hpairs, hothers, horder⟩ := h
  refine readSample_of_rearranged hline hother hpairs hothers ?_
  exact horder.elim (rearranged_of_perm (perm_of_forall₂ hpairs hothers hperm)) id

/-! ## Dimensions -/

/-- Whether an index, counted from one, stands in a token of a line. -/
def Seen (lines : List (List Char × Nat)) (index : Nat) : Prop :=
  ∃ line ∈ lines, ∃ token ∈ (Text.words line.1).tail, ∃ value, IsPair token (index, value)

/-- The indices of the tokens of lines, counted from one. -/
def indices (lines : List (List Char × Nat)) : List Nat :=
  lines.flatMap fun line => (Text.words line.1).tail.filterMap fun token =>
    (readPair token).toOption.map fun entry => entry.1 + 1

theorem seen_iff_mem {lines : List (List Char × Nat)} {index : Nat} :
    Seen lines index ↔ index ∈ indices lines := by
  have htoken : ∀ token, ((readPair token).toOption.map fun entry => entry.1 + 1) = some index ↔
      ∃ value, IsPair token (index, value) := by
    intro token
    simp only [Option.map_eq_some_iff, toOption_eq_some_iff, readPair_ok_iff]
    constructor
    · rintro ⟨-, ⟨⟨first, value⟩, hpair, rfl⟩, rfl⟩
      rw [lower, Nat.sub_add_cancel hpair.pos]
      exact ⟨value, hpair⟩
    · rintro ⟨value, hpair⟩
      exact ⟨_, ⟨_, hpair, rfl⟩, Nat.sub_add_cancel hpair.pos⟩
  simp only [Seen, indices, List.mem_flatMap, List.mem_filterMap, htoken]

/-- The indices of the sample of a line are those of its tokens, lowered by one. -/
theorem mem_indices_iff {line : List Char} {s : Sample Float} (h : readSample line = .ok s)
    {index : Nat} : index ∈ s.features.indices ↔
      ∃ token ∈ (Text.words line).tail, ∃ value, IsPair token (index + 1, value) := by
  obtain ⟨label, pairs, ⟨first, tokens, hwords, -, hpairs⟩, rfl⟩ := readSample_ok_iff.1 h
  have hperm := (List.mergeSort_perm (pairs.map lower) fun a b => decide (a.1 ≤ b.1)).map Prod.fst
  have hmem : index ∈ (SparseVector.ofEntries (pairs.map lower)).indices ↔
      ∃ pair ∈ pairs, pair.1 - 1 = index := by
    rw [SparseVector.ofEntries, hperm.mem_iff, List.map_map, List.mem_map]
    rfl
  rw [hwords, List.tail_cons, hmem]
  constructor
  · rintro ⟨pair, hpair, rfl⟩
    obtain ⟨token, htoken, hpair'⟩ := Table.exists_of_mem hpairs.flip hpair
    have hpos := pos_of_forall₂ hpairs pair hpair
    exact ⟨token, htoken, pair.2, by rwa [Nat.sub_add_cancel hpos]⟩
  · rintro ⟨token, htoken, value, hvalue⟩
    obtain ⟨pair, hpair, hpair'⟩ := Table.exists_of_mem hpairs htoken
    exact ⟨pair, hpair, by rw [hpair'.unique hvalue, Nat.add_sub_cancel]⟩

/-- The number of features is that after some index, if there is one. -/
theorem dimension_eq (samples : List (Sample Float)) : dimension samples = 0 ∨
    ∃ s ∈ samples, ∃ index ∈ s.features.indices, dimension samples = index + 1 := by
  induction samples with
  | nil => exact .inl rfl
  | cons s rest ih =>
      have hcons : dimension (s :: rest) = max (width s.features) (dimension rest) := rfl
      rw [hcons]
      rcases Nat.le_total (dimension rest) (width s.features) with hle | hle
      · rw [Nat.max_eq_left hle, width]
        split
        · rename_i last hlast
          exact .inr ⟨s, List.mem_cons_self, last, List.mem_of_getLast? hlast, rfl⟩
        · exact .inl rfl
      · rw [Nat.max_eq_right hle]
        refine ih.imp_right fun ⟨t, ht, hindex⟩ => ⟨t, List.mem_cons_of_mem s ht, hindex⟩

/-- The number of features is the greatest index, or zero if there is none. -/
theorem dimension_spec {lines : List (List Char × Nat)} {samples : List (Sample Float)}
    (h : List.Forall₂ (fun line s => readSample line.1 = .ok s) lines samples) :
    (∀ index, Seen lines index → index ≤ dimension samples) ∧
      (dimension samples = 0 ∨ Seen lines (dimension samples)) := by
  constructor
  · rintro index ⟨line, hline, token, htoken, value, hpair⟩
    obtain ⟨s, hs, hread⟩ := Table.exists_of_mem h hline
    obtain ⟨lowered, rfl⟩ := Nat.exists_eq_add_of_le' hpair.pos
    exact index_lt_dimension hs (wellFormed_readSample hread)
      ((mem_indices_iff hread).2 ⟨token, htoken, value, hpair⟩)
  · rcases dimension_eq samples with hzero | ⟨s, hs, index, hindex, heq⟩
    · exact .inl hzero
    · obtain ⟨line, hline, hread⟩ := Table.exists_of_mem h.flip hs
      rw [heq]
      exact .inr ⟨line, hline, (mem_indices_iff hread).1 hindex⟩

/-- The dimension does not depend on the order of the samples. -/
theorem dimension_reverse (samples : List (Sample Float)) :
    dimension samples.reverse = dimension samples :=
  (List.reverse_perm samples).foldr_eq'
    (fun s _ t _ d => Nat.max_left_comm (width t.features) (width s.features) d) 0

/-! ## Files -/

/-- Whether every line that has content is in form. -/
def AllLines (lines : List (List Char × Nat)) : Prop :=
  ∀ line ∈ lines, IsLine line.1

instance (lines : List (List Char × Nat)) : Decidable (AllLines lines) :=
  inferInstanceAs (Decidable (∀ line ∈ lines, IsLine line.1))

/-- Put the sample of a line before those of the lines before it. -/
def step (samples : List (Sample Float)) (line : List Char) :
    Except LineFault (List (Sample Float)) :=
  (readSample line).map (· :: samples)

/-- What is done with the samples of all lines, the last one first. -/
def finish (samples : List (Sample Float)) : Except TableFault Table :=
  if samples.isEmpty then .error .noSamples
  else
    let count := dimension samples
    if mostNames < count then .error (.breach .capacity)
    else .ok ⟨(List.range count).map defaultFeatureName, samples.reverse⟩

theorem step_id (samples : List (Sample Float)) (line : List Char) :
    step (id samples) line = (readSample line).map fun s => id (s :: samples) := rfl

/-- The content of a text is read line by line and then finished. -/
theorem parse_toUTF8 (text : String) :
    parse text.toUTF8 =
      match Table.readAll .libsvm step [] (Table.contents text) with
      | .error fault => .error fault
      | .ok samples => finish samples := by
  rw [parse, Table.contentLines_toUTF8]
  simp only [Table.foldLines_eq_readAll]
  rfl

/-- A text without content has no samples. -/
theorem parse_of_contents_eq_nil {text : String} (h : Table.contents text = []) :
    parse text.toUTF8 = .error .noSamples := by
  rw [parse_toUTF8, h]
  rfl

/-- A text whose lines are all in form is read as their samples, as long as a list of as many names
as the greatest index says fits into memory. -/
theorem parse_of_allLines {text : String} (hsome : Table.contents text ≠ [])
    (h : AllLines (Table.contents text)) : ∃ samples,
      List.Forall₂ (fun line s => readSample line.1 = .ok s) (Table.contents text) samples ∧
      parse text.toUTF8 = if mostNames < dimension samples then .error (.breach .capacity)
        else .ok ⟨(List.range (dimension samples)).map defaultFeatureName, samples⟩ := by
  obtain ⟨samples, hsamples, hread⟩ := Table.readAll_ok .libsvm id step_id
    (fun line hline => exists_readSample_iff.2 (h line hline)) []
  have hne : ¬samples.reverse.isEmpty = true := by
    rw [List.isEmpty_iff, List.reverse_eq_nil_iff]
    rintro rfl
    exact hsome (List.forall₂_nil_right_iff.1 hsamples)
  rw [id, id, List.append_nil] at hread
  refine ⟨samples, hsamples, ?_⟩
  rw [parse_toUTF8, hread]
  simp only [finish, if_neg hne, dimension_reverse, List.reverse_reverse]

/-- The first line that is not in form is named. -/
theorem parse_of_not_allLines {text : String} (h : ¬AllLines (Table.contents text)) :
    ∃ number fault, Table.FirstWithout IsLine (Table.contents text) number ∧
      parse text.toUTF8 = .error (.line .libsvm number fault) := by
  obtain ⟨number, hfirst⟩ := (Table.forall_or_firstWithout _ _).resolve_left h
  have hread : IsLine = fun line => ∃ s, readSample line = .ok s :=
    funext fun line => propext exists_readSample_iff.symm
  obtain ⟨fault, hfault⟩ := Table.readAll_error .libsvm id step_id (hread ▸ hfirst) []
  refine ⟨number, fault, hfirst, ?_⟩
  rw [id] at hfault
  rw [parse_toUTF8, hfault]

/-- A text is read as another one with the same lines with content, unless there is a fault. -/
theorem parse_ok_congr {text other : String}
    (h : (Table.contents text).map Prod.fst = (Table.contents other).map Prod.fst) {table : Table}
    (hparse : parse text.toUTF8 = .ok table) : parse other.toUTF8 = .ok table := by
  rw [parse_toUTF8] at hparse ⊢
  split at hparse
  · simp at hparse
  · rename_i samples hread
    rw [Table.readAll_ok_congr h hread]
    exact hparse

/-- A text with a permuted line is read as the text itself. -/
theorem parse_congr {text other : String} {before after : List (List Char × Nat)}
    {line line' : List Char} {number : Nat}
    (htext : Table.contents text = before ++ (line, number) :: after)
    (hother : Table.contents other = before ++ (line', number) :: after)
    (h : Permuted line line') : parse text.toUTF8 = parse other.toUTF8 := by
  have hstep : ∀ samples, step samples line = step samples line' := fun samples => by
    rw [step, step, readSample_of_permuted h]
  rw [parse_toUTF8, parse_toUTF8, htext, hother, Table.readAll_congr_line hstep]

/-- Only a text with content whose lines are all in form is read. -/
theorem allLines_of_parse {text : String} {table : Table} (h : parse text.toUTF8 = .ok table) :
    Table.contents text ≠ [] ∧ AllLines (Table.contents text) := by
  constructor
  · intro hnil
    rw [parse_of_contents_eq_nil hnil] at h
    cases h
  · by_contra hnot
    obtain ⟨number, fault, -, herror⟩ := parse_of_not_allLines hnot
    rw [herror] at h
    cases h

/-- What is read from a text has the samples of its lines and as many default names as the greatest
index says. -/
theorem table_of_parse {text : String} {table : Table} (h : parse text.toUTF8 = .ok table) :
    ∃ samples,
      List.Forall₂ (fun line s => readSample line.1 = .ok s) (Table.contents text) samples ∧
      dimension samples ≤ mostNames ∧
      table = ⟨(List.range (dimension samples)).map defaultFeatureName, samples⟩ := by
  obtain ⟨hsome, hall⟩ := allLines_of_parse h
  obtain ⟨samples, hsamples, heq⟩ := parse_of_allLines hsome hall
  rw [h] at heq
  split at heq
  · simp at heq
  · rename_i hfit
    exact ⟨samples, hsamples, Nat.le_of_not_lt hfit, Except.ok.inj heq⟩

/-- A text with content whose lines are in form and whose names fit into memory is read. -/
theorem exists_parse {text : String} (hsome : Table.contents text ≠ [])
    (hall : AllLines (Table.contents text))
    (hfit : ∀ index, Seen (Table.contents text) index → index ≤ mostNames) :
    ∃ table, parse text.toUTF8 = .ok table := by
  obtain ⟨samples, hsamples, heq⟩ := parse_of_allLines hsome hall
  have hle : dimension samples ≤ mostNames := by
    rcases (dimension_spec hsamples).2 with hzero | hseen
    · exact hzero ▸ Nat.zero_le _
    · exact hfit _ hseen
  exact ⟨_, heq.trans (if_neg (Nat.not_lt_of_le hle))⟩

/-- An index beyond the names that fit into memory breaks off a text whose lines are in form. -/
theorem parse_of_seen {text : String} (hall : AllLines (Table.contents text)) {index : Nat}
    (hseen : Seen (Table.contents text) index) (hlarge : mostNames < index) :
    parse text.toUTF8 = .error (.breach .capacity) := by
  have hsome : Table.contents text ≠ [] := by
    obtain ⟨line, hline, -⟩ := hseen
    exact List.ne_nil_of_mem hline
  obtain ⟨samples, hsamples, heq⟩ := parse_of_allLines hsome hall
  have hbound := (dimension_spec hsamples).1 index hseen
  rw [heq, if_pos (Nat.lt_of_lt_of_le hlarge hbound)]

/-- A text is read exactly if it has content, all lines that have content are in form, and a list of
as many names as the greatest index says fits into memory.  Then there is one sample for each of the
lines, which has its label and its pairs, no index is beyond the names, and there are as many
default names as the greatest index says.  A text without content has no samples; otherwise the
first line that is not in form is named by its number.  Tokens with different indices can change
places, and lines that are passed over can be put in or left out. -/
theorem reads_exactly_indexed_format (text : String) :
    ((∃ table, parse text.toUTF8 = .ok table) ↔
      Table.contents text ≠ [] ∧ AllLines (Table.contents text) ∧
      ∀ index, Seen (Table.contents text) index → index ≤ mostNames) ∧
    (∀ table, parse text.toUTF8 = .ok table →
      List.Forall₂ (fun line s => ∃ label pairs, Has line.1 label pairs ∧ Gives label pairs s)
        (Table.contents text) table.samples ∧
      (∀ s ∈ table.samples, ∀ i ∈ s.features.indices, i < table.names.length) ∧
      table.names = (List.range table.names.length).map defaultFeatureName ∧
      (∀ index, Seen (Table.contents text) index → index ≤ table.names.length) ∧
      (table.names.length = 0 ∨ Seen (Table.contents text) table.names.length)) ∧
    (Table.contents text = [] → parse text.toUTF8 = .error .noSamples) ∧
    (¬AllLines (Table.contents text) → ∃ number fault,
      Table.FirstWithout IsLine (Table.contents text) number ∧
      parse text.toUTF8 = .error (.line .libsvm number fault)) ∧
    (AllLines (Table.contents text) →
      (∃ index, Seen (Table.contents text) index ∧ mostNames < index) →
      parse text.toUTF8 = .error (.breach .capacity)) ∧
    (∀ (other : String) (before after : List (List Char × Nat)) (line line' : List Char)
      (number : Nat), Table.contents text = before ++ (line, number) :: after →
      Table.contents other = before ++ (line', number) :: after → Permuted line line' →
      parse text.toUTF8 = parse other.toUTF8) ∧
    ∀ (other : String) (before skipped after : List (List Char)),
      Text.lines text.toList = before ++ after →
      Text.lines other.toList = before ++ skipped ++ after →
      (∀ line ∈ skipped, Table.isPassedOver (Text.trim line) = true) →
      ∀ table, parse text.toUTF8 = .ok table ↔ parse other.toUTF8 = .ok table := by
  refine ⟨⟨fun ⟨table, hparse⟩ => ?_, fun ⟨hsome, hall, hfit⟩ => exists_parse hsome hall hfit⟩,
    fun table hparse => ?_, parse_of_contents_eq_nil, parse_of_not_allLines,
    fun hall ⟨index, hseen, hlarge⟩ => parse_of_seen hall hseen hlarge,
    fun other before after line line' number htext hother => parse_congr htext hother,
    fun other before skipped after htext hother hskipped table => ?_⟩
  · obtain ⟨hsome, hall⟩ := allLines_of_parse hparse
    obtain ⟨samples, hsamples, hfit, -⟩ := table_of_parse hparse
    exact ⟨hsome, hall, fun index hseen =>
      Nat.le_trans ((dimension_spec hsamples).1 index hseen) hfit⟩
  · have hfits := fits_parse hparse
    obtain ⟨samples, hsamples, -, rfl⟩ := table_of_parse hparse
    have hlength : ((List.range (dimension samples)).map defaultFeatureName).length =
        dimension samples := by simp
    rw [hlength]
    exact ⟨hsamples.imp fun line s => gives_of_readSample,
      fun s hs => hlength ▸ (hfits s hs).index_lt, rfl, dimension_spec hsamples⟩
  · have hsame := Table.map_fst_contents_of_passedOver htext hother hskipped
    exact ⟨parse_ok_congr hsame, parse_ok_congr hsame.symm⟩

/-- A text with two lines of pairs. -/
def twoLines : String := "+1 1:0.5 3:1.2\n-1 2:0.3 5:2.1\n"

/-- The two lines are read, also with two tokens in another order or with a remark; a token that is
no pair is a fault in its line, a remark alone has no samples, and an index beyond all lists of
names breaks off. -/
theorem reads_twoLines :
    (∃ table, parse twoLines.toUTF8 = .ok table ∧ table.samples.length = 2 ∧
      parse "+1 3:1.2 1:0.5\n-1 2:0.3 5:2.1\n".toUTF8 = .ok table ∧
      parse "+1 1:0.5 3:1.2\n\n# two\n-1 2:0.3 5:2.1\n".toUTF8 = .ok table) ∧
    (∃ fault, parse "# one\n1 2:0.5 x\n".toUTF8 = .error (.line .libsvm 2 fault)) ∧
    parse "# none\n".toUTF8 = .error .noSamples ∧
    parse "1 9223372036854775807:1\n".toUTF8 = .error (.breach .capacity) := by
  refine ⟨?_, ?_, (reads_exactly_indexed_format "# none\n").2.2.1 (by decide +kernel),
    (reads_exactly_indexed_format "1 9223372036854775807:1\n").2.2.2.2.1 (by decide +kernel)
      ⟨9223372036854775807, seen_iff_mem.2 (by decide +kernel), by decide +kernel⟩⟩
  · obtain ⟨hread, hstates, -, -, -, hpermuted, hskip⟩ := reads_exactly_indexed_format twoLines
    have hfit : ∀ index ∈ indices (Table.contents twoLines), index ≤ mostNames := by decide +kernel
    obtain ⟨table, hparse⟩ := hread.2 ⟨by decide +kernel, by decide +kernel,
      fun index hseen => hfit index (seen_iff_mem.1 hseen)⟩
    have hsame := hpermuted "+1 3:1.2 1:0.5\n-1 2:0.3 5:2.1\n" [] [("-1 2:0.3 5:2.1".toList, 2)]
      "+1 1:0.5 3:1.2".toList "+1 3:1.2 1:0.5".toList 1 (by decide +kernel) (by decide +kernel)
      ⟨"+1".toList, ["1:0.5".toList, "3:1.2".toList], ["3:1.2".toList, "1:0.5".toList],
        [(1, 0.5), (3, 1.2)], [(3, 1.2), (1, 0.5)], by decide +kernel, by decide +kernel,
        .swap _ _ _, by decide +kernel, by decide +kernel, .inl (by decide +kernel)⟩
    have hremark := hskip "+1 1:0.5 3:1.2\n\n# two\n-1 2:0.3 5:2.1\n" ["+1 1:0.5 3:1.2".toList]
      [[], "# two".toList] ["-1 2:0.3 5:2.1".toList] (by decide +kernel) (by decide +kernel)
      (by decide +kernel) table
    exact ⟨table, hparse, (hstates table hparse).1.length_eq.symm.trans (by decide +kernel),
      hsame.symm.trans hparse, hremark.1 hparse⟩
  · obtain ⟨number, fault, ⟨before, line, after, hsplit, -⟩, hparse⟩ :=
      (reads_exactly_indexed_format "# one\n1 2:0.5 x\n").2.2.2.1 (by decide +kernel)
    have hlines : Table.contents "# one\n1 2:0.5 x\n" = [("1 2:0.5 x".toList, 2)] := by
      decide +kernel
    have hmem : (line, number) ∈ [("1 2:0.5 x".toList, 2)] := by
      rw [← hlines, hsplit]
      simp
    obtain ⟨-, rfl⟩ := Prod.mk.inj (List.mem_singleton.1 hmem)
    exact ⟨fault, hparse⟩

end LibSvm
end Retrace
