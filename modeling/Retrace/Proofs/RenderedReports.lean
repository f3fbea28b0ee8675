import Retrace.Proofs.JsonValues
import Retrace.Record.Report

/-!
# Rendering a report loses nothing

The differences of a report are told apart in its JSON by what stands in an object.  A changed
primitive is an object of two strings, a primitive of one side an object of one string, and the
differences inside an object or a map are an object that holds no string, whatever its keys are.
As the two labels differ, every string says which side it comes from, so keys that are equal to a
label do no harm, and neither does a label that is the key of two kinds.  A mismatch of kinds is an
object that holds an object under a key of its own; only a report that has a change under this very
key is rendered alike.  So two reports without the key that are rendered alike are equal, and so are
two that come to one text.

Main results:

- Theorem `holdsText_encode_iff`: the differences whose JSON is an object that holds a string.
- Theorem `encode_eq_kinds_iff`: what is rendered like a mismatch of kinds.
- Theorem `encode_injective`: differences without the key of two kinds that are rendered alike are
  equal.
- Theorem `rendering_injective`: so are reports, by their JSON and by their texts.
-/

namespace Retrace

namespace Json

theorem escape_injective {s t : List Char} (h : escape s = escape t) : s = t := by
  have hs := unescape_escape s
  rw [h, unescape_escape, Option.some.injEq] at hs
  exact hs.symm

/-- Texts with the same escapes are the same. -/
@[simp] theorem escape_toList_inj {s t : String} :
    escape s.toList = escape t.toList ↔ s = t :=
  ⟨fun h => String.toList_inj.1 (escape_injective h), fun h => h ▸ rfl⟩

/-- Texts that are written alike are the same. -/
@[simp] theorem string_inj {s t : String} : string s = string t ↔ s = t := by
  rw [string, string, Json.text.injEq, escape_toList_inj]

/-- Objects that are built from equal members only are equal. -/
theorem record_injective {a b : List (String × Json)} (h : record a = record b) : a = b := by
  rw [record, record, Json.object.injEq] at h
  refine List.map_injective_iff.2 ?_ h
  rintro ⟨key, j⟩ ⟨key', j'⟩ hmember
  simpa using hmember

/-- Values that are written as such and printed alike are equal. -/
theorem renderPretty_injective {j k : Json} (hj : j.isWritten = true) (hk : k.isWritten = true)
    (h : j.renderPretty = k.renderPretty) : j = k := by
  have hchars : j.pretty 0 = k.pretty 0 := String.ofList_injective h
  have hparse := parse_pretty hj
  rw [hchars, parse_pretty hk] at hparse
  exact (congrArg Prod.fst hparse).symm

/-- Whether a value is an object that holds a string. -/
def HoldsText (j : Json) : Prop :=
  ∃ members, j = .object members ∧ ∃ m ∈ members, ∃ body, m.2 = .text body

/-- A record holds the texts of its members. -/
theorem holdsText_record {members : List (String × Json)} {key s : String}
    (h : (key, string s) ∈ members) : (record members).HoldsText :=
  ⟨_, rfl, _, List.mem_map_of_mem h, _, rfl⟩

end Json

namespace Difference

/-! ## Keys of a report -/

/-- Whether a key occurs in a difference, at any depth. -/
inductive Mentions (key : String) : Difference → Prop
  | here {entries : Report} {d : Difference} (h : (key, d) ∈ entries) :
      Mentions key (.nested entries)
  | entry {entries : Report} {e : String × Difference} (he : e ∈ entries) (h : Mentions key e.2) :
      Mentions key (.nested entries)
  | item {parts : List Difference} {d : Difference} (hd : d ∈ parts) (h : Mentions key d) :
      Mentions key (.items parts)

variable {key : String}

/-- A nested report does not mention a key if none of its entries does. -/
theorem not_mentions_nested_iff {entries : Report} :
    ¬ Mentions key (.nested entries) ↔ ∀ e ∈ entries, e.1 ≠ key ∧ ¬ Mentions key e.2 := by
  constructor
  · intro h e he
    exact ⟨fun hkey => h (.here (d := e.2) (hkey ▸ he)), fun hinner => h (.entry he hinner)⟩
  · intro h hmentions
    cases hmentions with
    | here hmem => exact (h _ hmem).1 rfl
    | entry he hinner => exact (h _ he).2 hinner

/-- A list of differences does not mention a key if none of them does. -/
theorem not_mentions_items_iff {parts : List Difference} :
    ¬ Mentions key (.items parts) ↔ ∀ d ∈ parts, ¬ Mentions key d := by
  constructor
  · exact fun h d hd hinner => h (.item hd hinner)
  · intro h hmentions
    cases hmentions with
    | item hd hinner => exact h _ hd hinner

/-! ## What is rendered -/

/-- A report is an object whose members have its keys. -/
theorem encode_nested (labels : SideLabels) (entries : Report) :
    encode labels (.nested entries) =
      .record (entries.map fun e => (e.1, encode labels e.2)) := by
  rw [encode, Json.record, Json.object.injEq]
  induction entries with
  | nil => rfl
  | cons e rest ih => rw [encodeEntries, List.map_cons, List.map_cons, ih]

/-- No difference is rendered as a bare text. -/
theorem encode_ne_text (labels : SideLabels) (d : Difference) (body : List Char) :
    encode labels d ≠ .text body := by
  cases d <;> simp [encode, pair, Json.record]

/-- The right text is always found under the right label. -/
theorem mem_pair (labels : SideLabels) (left right : String) :
    (labels.right, Json.string right) ∈
      Keyed.ofList [(labels.left, .string left), (labels.right, .string right)] := by
  apply Keyed.mem_of_lookup
  simp [Keyed.lookup_ofList, Keyed.lookupLast_cons]

/-- The differences whose JSON is an object that holds a string. -/
theorem holdsText_encode_iff (labels : SideLabels) (d : Difference) :
    (encode labels d).HoldsText ↔
      (∃ left right, d = .changed left right) ∨ ∃ side text, d = .only side text := by
  constructor
  · rintro ⟨members, hmembers, m, hm, body, hbody⟩
    cases d with
    | changed left right => exact .inl ⟨left, right, rfl⟩
    | only side text => exact .inr ⟨side, text, rfl⟩
    | nested entries =>
        rw [encode_nested, Json.record, Json.object.injEq] at hmembers
        rw [← hmembers, List.map_map] at hm
        obtain ⟨e, -, rfl⟩ := List.mem_map.1 hm
        exact absurd hbody (encode_ne_text labels e.2 body)
    | items parts => simp [encode] at hmembers
    | kinds left right =>
        rw [encode, Json.record, Json.object.injEq] at hmembers
        rw [← hmembers, List.map_singleton, List.mem_singleton] at hm
        rw [hm] at hbody
        simp [pair, Json.record] at hbody
  · rintro (⟨left, right, rfl⟩ | ⟨side, text, rfl⟩)
    · exact Json.holdsText_record (mem_pair labels left right)
    · exact Json.holdsText_record List.mem_cons_self

section

variable {labels : SideLabels} (hlabels : labels.left ≠ labels.right)

include hlabels

/-- Labels that differ tell the sides apart. -/
theorem label_injective {side side' : Side} (h : labels.label side = labels.label side') :
    side = side' := by
  cases side <;> cases side' <;> simp_all [SideLabels.label, Ne.symm]

/-- Both texts of a changed primitive are found under their labels. -/
theorem lookup_pair (left right : String) :
    let members := [(labels.left, Json.string left), (labels.right, .string right)]
    Keyed.lookupLast labels.left members = some (.string left) ∧
      Keyed.lookupLast labels.right members = some (.string right) := by
  simp [Keyed.lookupLast_cons, hlabels.symm]

theorem pair_inj {left right left' right' : String}
    (h : pair labels left right = pair labels left' right') : left = left' ∧ right = right' := by
  have hlookup := Keyed.ofList_eq_iff.1 (Json.record_injective h)
  obtain ⟨hleft, hright⟩ := lookup_pair hlabels left right
  obtain ⟨hleft', hright'⟩ := lookup_pair hlabels left' right'
  have hl := hlookup labels.left
  have hr := hlookup labels.right
  rw [hleft, hleft', Option.some.injEq, Json.string_inj] at hl
  rw [hright, hright', Option.some.injEq, Json.string_inj] at hr
  exact ⟨hl, hr⟩

/-- Two texts under two labels are not one text under one of them. -/
theorem pair_ne_only (left right : String) (side : Side) (text : String) :
    pair labels left right ≠ .record [(labels.label side, .string text)] := by
  intro h
  have hsingle : Keyed.Ascending [(labels.label side, Json.string text)] := ⟨by simp, trivial⟩
  rw [pair, ← Keyed.ofList_of_ascending hsingle] at h
  have hlookup := Keyed.ofList_eq_iff.1 (Json.record_injective h)
  obtain ⟨hleft, hright⟩ := lookup_pair hlabels left right
  have hl := hlookup labels.left
  have hr := hlookup labels.right
  rw [hleft] at hl
  rw [hright] at hr
  -- one member would have to stand under both labels
  have hsame : ∀ {label s}, some (Json.string s) = Keyed.lookupLast label
      [(labels.label side, .string text)] → labels.label side = label := by
    intro label s hfound
    have hmem := Keyed.mem_of_lookupLast hfound.symm
    exact (Prod.mk.inj (List.mem_singleton.1 hmem)).1.symm
  exact hlabels ((hsame hl).symm.trans (hsame hr))

/-! ## What is rendered alike -/

/-- A change is rendered like no other difference. -/
theorem encode_eq_changed_iff {d : Difference} {left right : String} :
    encode labels d = encode labels (.changed left right) ↔ d = .changed left right := by
  refine ⟨fun h => ?_, fun h => h ▸ rfl⟩
  have htext := (holdsText_encode_iff labels (.changed left right)).2 (.inl ⟨_, _, rfl⟩)
  rw [← h, holdsText_encode_iff] at htext
  rcases htext with ⟨left', right', rfl⟩ | ⟨side, text, rfl⟩
  · obtain ⟨rfl, rfl⟩ := pair_inj hlabels h
    rfl
  · exact absurd h.symm (pair_ne_only hlabels left right side text)

/-- A difference on one side is rendered like no other one. -/
theorem encode_eq_only_iff {d : Difference} {side : Side} {text : String} :
    encode labels d = encode labels (.only side text) ↔ d = .only side text := by
  refine ⟨fun h => ?_, fun h => h ▸ rfl⟩
  have htext := (holdsText_encode_iff labels (.only side text)).2 (.inr ⟨_, _, rfl⟩)
  rw [← h, holdsText_encode_iff] at htext
  rcases htext with ⟨left, right, rfl⟩ | ⟨side', text', rfl⟩
  · exact absurd h (pair_ne_only hlabels left right side text)
  · have hmembers := Json.record_injective h
    simp only [List.cons.injEq, Prod.mk.injEq, Json.string_inj, and_true] at hmembers
    rw [label_injective hlabels hmembers.1, hmembers.2]

/-- What is rendered like a mismatch of kinds is one, or a report of one change under the key of
two kinds. -/
theorem encode_eq_kinds_iff {d : Difference} {left right : String} :
    encode labels d = encode labels (.kinds left right) ↔
      d = .kinds left right ∨ d = .nested [("kind-mismatch", .changed left right)] := by
  constructor
  · intro h
    cases d with
    | changed left' right' => simpa using (encode_eq_changed_iff hlabels).1 h.symm
    | only side text => simpa using (encode_eq_only_iff hlabels).1 h.symm
    | items parts => simp [encode, Json.record] at h
    | kinds left' right' =>
        have hmembers := Json.record_injective h
        simp only [List.cons.injEq, Prod.mk.injEq, and_true, true_and] at hmembers
        obtain ⟨rfl, rfl⟩ := pair_inj hlabels hmembers
        exact .inl rfl
    | nested entries =>
        rw [encode_nested] at h
        have hmembers := Json.record_injective h
        obtain ⟨e, rfl, he⟩ := List.map_eq_singleton_iff.1 hmembers
        obtain ⟨hkey, hinner⟩ := Prod.mk.inj he
        have hchanged : e.2 = .changed left right := (encode_eq_changed_iff hlabels).1 hinner
        right
        rw [← hkey, ← hchanged]
  · rintro (rfl | rfl)
    · rfl
    · rw [encode_nested]
      rfl

end

section

variable {labels : SideLabels}

mutual

-- The induction is on the first difference; the lemmas above leave the second one the same shape
-- wherever their objects hold a string or stand for two kinds.

/-- Differences without the key of two kinds that are rendered alike are equal. -/
theorem encode_injective (hlabels : labels.left ≠ labels.right) : (d d' : Difference) →
    ¬ Mentions "kind-mismatch" d → ¬ Mentions "kind-mismatch" d' →
      encode labels d = encode labels d' → d = d'
  | .changed left right, d' => fun _ _ h => ((encode_eq_changed_iff hlabels).1 h.symm).symm
  | .only side text, d' => fun _ _ h => ((encode_eq_only_iff hlabels).1 h.symm).symm
  | .kinds left right, d' => fun _ hd' h => by
      rcases (encode_eq_kinds_iff hlabels).1 h.symm with rfl | rfl
      · rfl
      · exact absurd rfl (not_mentions_nested_iff.1 hd' _ List.mem_cons_self).1
  | .items parts, d' => fun hd hd' h => by
      cases d' with
      | items parts' =>
          rw [not_mentions_items_iff] at hd hd'
          rw [encode, encode, Json.list.injEq] at h
          rw [encodeItems_injective hlabels parts parts' hd hd' h]
      | _ => simp [encode, pair, Json.record] at h
  | .nested entries, d' => fun hd hd' h => by
      cases d' with
      | changed left right => exact (encode_eq_changed_iff hlabels).1 h
      | only side text => exact (encode_eq_only_iff hlabels).1 h
      | items parts => simp [encode] at h
      | kinds left right =>
          rcases (encode_eq_kinds_iff hlabels).1 h with h | h
          · exact h
          · rw [h] at hd
            exact absurd rfl (not_mentions_nested_iff.1 hd _ List.mem_cons_self).1
      | nested entries' =>
          rw [not_mentions_nested_iff] at hd hd'
          rw [encode, encode, Json.object.injEq] at h
          rw [encodeEntries_injective hlabels entries entries' (fun e he => (hd e he).2)
            (fun e he => (hd' e he).2) h]

/-- The rendered parts of a list determine them. -/
theorem encodeItems_injective (hlabels : labels.left ≠ labels.right) :
    (parts parts' : List Difference) → (∀ d ∈ parts, ¬ Mentions "kind-mismatch" d) →
      (∀ d ∈ parts', ¬ Mentions "kind-mismatch" d) →
        encodeItems labels parts = encodeItems labels parts' → parts = parts'
  | [], parts' => fun _ _ h => by cases parts' <;> simp_all [encodeItems]
  | d :: parts, parts' => fun hd hd' h => by
      cases parts' with
      | nil => simp [encodeItems] at h
      | cons d' parts' =>
          rw [List.forall_mem_cons] at hd hd'
          rw [encodeItems, encodeItems, List.cons.injEq] at h
          rw [encode_injective hlabels d d' hd.1 hd'.1 h.1,
            encodeItems_injective hlabels parts parts' hd.2 hd'.2 h.2]

/-- The rendered entries of a report determine it. -/
theorem encodeEntries_injective (hlabels : labels.left ≠ labels.right) :
    (entries entries' : List (String × Difference)) →
      (∀ e ∈ entries, ¬ Mentions "kind-mismatch" e.2) →
        (∀ e ∈ entries', ¬ Mentions "kind-mismatch" e.2) →
          encodeEntries labels entries = encodeEntries labels entries' → entries = entries'
  | [], entries' => fun _ _ h => by cases entries' <;> simp_all [encodeEntries]
  | (key, d) :: entries, entries' => fun hd hd' h => by
      cases entries' with
      | nil => simp [encodeEntries] at h
      | cons e' entries' =>
          obtain ⟨key', d'⟩ := e'
          rw [List.forall_mem_cons] at hd hd'
          simp only [encodeEntries, List.cons.injEq, Prod.mk.injEq, Json.escape_toList_inj] at h
          obtain ⟨⟨rfl, hvalue⟩, hrest⟩ := h
          rw [encode_injective hlabels d d' hd.1 hd'.1 hvalue,
            encodeEntries_injective hlabels entries entries' hd.2 hd'.2 hrest]

end

end

/-! ## Texts -/

theorem isWritten_pair (labels : SideLabels) (left right : String) :
    (pair labels left right).isWritten = true := by
  rw [pair, Json.isWritten_record, List.all_eq_true]
  intro m hm
  have hmem := Keyed.mem_of_mem_ofList hm
  simp only [List.mem_cons, List.not_mem_nil, or_false] at hmem
  rcases hmem with rfl | rfl <;> exact Json.isWritten_string _

mutual

/-- The JSON of a difference is written as such. -/
theorem isWritten_encode (labels : SideLabels) :
    (d : Difference) → (encode labels d).isWritten = true
  | .changed left right => isWritten_pair labels left right
  | .only side text => by simp [encode]
  | .kinds left right => by simp [encode, isWritten_pair]
  | .items parts => isWritten_encodeItems labels parts
  | .nested entries => isWritten_encodeEntries labels entries

/-- The rendered parts of a list are written. -/
theorem isWritten_encodeItems (labels : SideLabels) :
    (parts : List Difference) → Json.writtenItems (encodeItems labels parts) = true
  | [] => rfl
  | d :: parts => by
      rw [encodeItems, Json.writtenItems, isWritten_encode labels d,
        isWritten_encodeItems labels parts]
      rfl

/-- The rendered entries of a report are written. -/
theorem isWritten_encodeEntries (labels : SideLabels) :
    (entries : List (String × Difference)) →
      Json.writtenMembers (encodeEntries labels entries) = true
  | [] => rfl
  | (key, d) :: entries => by
      rw [encodeEntries, Json.writtenMembers, Json.isBody_escape, isWritten_encode labels d,
        isWritten_encodeEntries labels entries]
      rfl

end

/-- Two reports without the key of two kinds that have one JSON under chosen labels, or one text,
are equal.  Whatever its keys are, a report inside is not rendered like a changed primitive or one
of one side only, and like a mismatch of kinds only if it is a change under the key of two kinds. -/
theorem rendering_injective {left right : String} {labels : SideLabels}
    (hchosen : labels = SideLabels.choose left right) :
    (∀ a b : Report, ¬ Mentions "kind-mismatch" (.nested a) →
      ¬ Mentions "kind-mismatch" (.nested b) →
        (encode labels (.nested a) = encode labels (.nested b) ↔ a = b) ∧
          (renderReport labels a = renderReport labels b ↔ a = b)) ∧
      ∀ entries : Report,
        (∀ l r, encode labels (.nested entries) ≠ encode labels (.changed l r)) ∧
          (∀ side text, encode labels (.nested entries) ≠ encode labels (.only side text)) ∧
          ∀ l r, encode labels (.nested entries) = encode labels (.kinds l r) ↔
            entries = [("kind-mismatch", .changed l r)] := by
  have hlabels : labels.left ≠ labels.right := hchosen ▸ SideLabels.labels_ne left right
  constructor
  · intro a b ha hb
    have hjson : encode labels (.nested a) = encode labels (.nested b) → a = b := fun h =>
      Difference.nested.inj (encode_injective hlabels _ _ ha hb h)
    refine ⟨⟨hjson, fun h => h ▸ rfl⟩, fun h => hjson ?_, fun h => h ▸ rfl⟩
    exact Json.renderPretty_injective (isWritten_encode labels (.nested a))
      (isWritten_encode labels (.nested b)) h
  · intro entries
    refine ⟨fun l r h => ?_, fun side text h => ?_, fun l r => ?_⟩
    · exact absurd ((encode_eq_changed_iff hlabels).1 h) nofun
    · exact absurd ((encode_eq_only_iff hlabels).1 h) nofun
    · rw [encode_eq_kinds_iff hlabels]
      simp

/-- Reports under labels that are the key of two kinds and a key of the trees: one on a map that one
side lacks an entry of, and one on a map against a primitive. -/
theorem rendering_injective_sharedKeys :
    let labels := SideLabels.choose "kind-mismatch" "gamma"
    let inner := Node.map [("gamma", .map [("gamma", .long 1)])]
    let a : Report := [("gamma", .nested [("gamma", .only .left "1")])]
    let b : Report := [("gamma", .kinds "map" "primitive")]
    compareTrees inner (.map [("gamma", .map [])]) = .ok a ∧
      compareTrees inner (.map [("gamma", .long 1)]) = .ok b ∧
      ¬ Mentions "kind-mismatch" (.nested a) ∧ ¬ Mentions "kind-mismatch" (.nested b) ∧
      renderReport labels a ≠ renderReport labels b ∧
      encode labels (.nested [("gamma", .only .left "1")]) ≠ encode labels (.changed "1" "1") := by
  intro labels inner a b
  have ha : ¬ Mentions "kind-mismatch" (.nested a) := by
    simp only [a, not_mentions_nested_iff, List.forall_mem_singleton]
    exact ⟨by decide, by decide, nofun⟩
  have hb : ¬ Mentions "kind-mismatch" (.nested b) := by
    simp only [b, not_mentions_nested_iff, List.forall_mem_singleton]
    exact ⟨by decide, nofun⟩
  obtain ⟨hreports, hinner⟩ := rendering_injective
    (rfl : labels = SideLabels.choose "kind-mismatch" "gamma")
  refine ⟨by rfl, by rfl, ha, hb, fun h => ?_, (hinner _).1 "1" "1"⟩
  exact absurd ((hreports a b ha hb).2.1 h) (by simp [a, b])

end Difference
end Retrace
