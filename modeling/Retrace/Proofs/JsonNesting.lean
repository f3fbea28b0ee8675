import Retrace.Proofs.SavedModels

/-!
# Models whose files are nested no deeper than the reader goes

The reader counts the lists and objects that it has opened, and gives up where there are too many.
What the count comes to is a matter of the JSON that is written, not of how it is read: it is how
deep the lists and objects of the file are nested.  Of a model file that is the nesting of the
record, for everything else in it is flat.

Main results:

- Theorem `Node.nesting_encode`: the JSON of a node is nested as deep as the reader counts.
- Theorem `ModelFile.nesting_le_iff`: how deep a model file is nested.
- Theorem `ModelFile.load_save_of_nesting`: a model is loaded as it was saved if its doubles are
  finite and its file is nested no deeper than the reader goes.
-/

namespace Retrace
namespace Json

/-! ## Nesting -/

mutual

/-- How many lists and objects of a value are nested in each other at most. -/
def nesting : Json → Nat
  | .list items => nestingItems items + 1
  | .object members => nestingMembers members + 1
  | _ => 0

/-- How many lists and objects are nested in the items of a list. -/
def nestingItems : List Json → Nat
  | [] => 0
  | j :: rest => max j.nesting (nestingItems rest)

/-- How many lists and objects are nested in the members of an object. -/
def nestingMembers : List (List Char × Json) → Nat
  | [] => 0
  | (_, j) :: rest => max j.nesting (nestingMembers rest)

end

@[simp] theorem nesting_string (s : String) : (string s).nesting = 0 := rfl

@[simp] theorem nesting_nat (n : Nat) : (nat n).nesting = 0 := rfl

@[simp] theorem nesting_int (n : Int) : (int n).nesting = 0 := rfl

@[simp] theorem nesting_boolean (b : Bool) : (boolean b).nesting = 0 := by
  rw [nesting] <;> simp

@[simp] theorem nesting_double (x : Float) : (double x).nesting = 0 := by
  rw [double]
  split <;> rfl

/-- Items are nested no deeper than the deepest of them. -/
theorem nestingItems_le_iff {items : List Json} {n : Nat} :
    nestingItems items ≤ n ↔ ∀ j ∈ items, j.nesting ≤ n := by
  induction items with
  | nil => simp [nestingItems]
  | cons j rest ih => rw [nestingItems, Nat.max_le, ih, List.forall_mem_cons]

/-- Members are nested no deeper than the deepest of their values. -/
theorem nestingMembers_le_iff {members : List (List Char × Json)} {n : Nat} :
    nestingMembers members ≤ n ↔ ∀ m ∈ members, m.2.nesting ≤ n := by
  induction members with
  | nil => simp [nestingMembers]
  | cons m rest ih =>
      obtain ⟨key, j⟩ := m
      rw [nestingMembers, Nat.max_le, ih, List.forall_mem_cons]

/-- A list is nested one level deeper than its items. -/
theorem nesting_list_le_iff {items : List Json} {n : Nat} :
    (list items).nesting ≤ n + 1 ↔ ∀ j ∈ items, j.nesting ≤ n := by
  rw [nesting, Nat.add_le_add_iff_right, nestingItems_le_iff]

/-- An object is nested one level deeper than its members. -/
theorem nesting_record_le_iff {members : List (String × Json)} {n : Nat} :
    (record members).nesting ≤ n + 1 ↔ ∀ m ∈ members, m.2.nesting ≤ n := by
  rw [record, nesting, Nat.add_le_add_iff_right, nestingMembers_le_iff, List.forall_mem_map]

/-- A list of what is not nested itself. -/
theorem nesting_list_map_le {β : Type} {encode : β → Json} {n : Nat}
    (h : ∀ b, (encode b).nesting ≤ n) (items : List β) :
    (list (items.map encode)).nesting ≤ n + 1 := by
  rw [nesting_list_le_iff, List.forall_mem_map]
  exact fun b _ => h b

end Json

open Json (nesting_record_le_iff nesting_list_map_le)

/-! ## Records -/

/-- A primitive is written as one object. -/
theorem Primitive.nesting_encode (p : Primitive) : p.encode.nesting = 1 := by
  cases p <;> simp [encode, Json.record, Json.nesting, Json.nestingMembers]

namespace Node

mutual

/-- The JSON of a node is nested as deep as the reader counts. -/
theorem nesting_encode : ∀ n : Node, n.encode.nesting = n.depth
  | .primitive p => by
      simp [encode, depth, Json.record, Json.nesting, Json.nestingMembers, p.nesting_encode]
  | .list items => by
      simp [encode, depth, Json.record, Json.nesting, Json.nestingMembers,
        nesting_encodeItems items]
  | .map entries => by
      simp [encode, depth, Json.record, Json.nesting, Json.nestingMembers,
        nesting_encodeEntries entries]
  | .object kind className configurable configured recorded => by
      simp only [encode, depth, Json.record, Json.nesting, Json.nestingMembers, List.map_cons,
        List.map_nil, Json.nesting_string, nesting_encodeFields configured,
        nesting_encodeFields recorded]
      omega

/-- The items of a list are written as deep as they are. -/
theorem nesting_encodeItems : ∀ items : List Node,
    Json.nestingItems (encodeItems items) = depthItems items
  | [] => rfl
  | n :: rest => by
      rw [encodeItems, Json.nestingItems, depthItems, nesting_encode n, nesting_encodeItems rest]

theorem nesting_encodeEntries : ∀ entries : List (String × Node),
    Json.nestingMembers (encodeEntries entries) = depthEntries entries
  | [] => rfl
  | (key, n) :: rest => by
      rw [encodeEntries, Json.nestingMembers, depthEntries, nesting_encode n,
        nesting_encodeEntries rest]

theorem nesting_encodeFields : ∀ fields : List (String × Node),
    Json.nestingItems (encodeFields fields) = depthFields fields
  | [] => rfl
  | (key, n) :: rest => by
      simp only [encodeFields, Json.nestingItems, depthFields, Json.nesting, Json.nesting_string,
        nesting_encode n, nesting_encodeFields rest]
      omega

end

end Node

/-- A record is written as deep as it is. -/
theorem Record.nesting_encode (r : Record) : r.encode.nesting = r.depth := by
  have hnode := r.node.nesting_encode
  rw [Node.encode_node, Node.depth_node] at hnode
  simpa [Json.record, Json.nesting, Json.nestingMembers] using hnode

/-! ## The parts of a model -/

/-- A kernel is written as one object. -/
theorem Kernel.nesting_encode_le (k : Kernel) : k.encode.nesting ≤ 1 := by
  cases k <;> simp [encode, nesting_record_le_iff]

/-- A vector is written as lists inside one object. -/
theorem SparseVector.nesting_encode_le (v : SparseVector Float) : v.encode.nesting ≤ 2 := by
  have hindices := @nesting_list_map_le _ Json.nat 0 (fun i => (Json.nesting_nat i).le) v.indices
  have hvalues := @nesting_list_map_le _ Json.double 0 (fun x => (Json.nesting_double x).le)
    v.values
  rw [encode, nesting_record_le_iff]
  simpa using ⟨hindices, hvalues⟩

/-- Features are written as objects in a list inside one object. -/
theorem FeatureMap.nesting_encode_le (m : FeatureMap) : m.encode.nesting ≤ 3 := by
  have hfeature (f : FeatureInfo) : f.encode.nesting ≤ 1 := by
    simp [FeatureInfo.encode, nesting_record_le_iff]
  rw [encode, nesting_record_le_iff]
  simpa using nesting_list_map_le hfeature m.features

/-- Label counts are written as one object inside another. -/
theorem LabelCounts.nesting_encode_le (l : LabelCounts) : l.encode.nesting ≤ 2 := by
  rw [encode, nesting_record_le_iff, List.forall_mem_singleton, nesting_record_le_iff,
    List.forall_mem_map]
  exact fun e _ => (Json.nesting_nat e.2).le

/-! ## Models and files -/

/-- A model is nested one level deeper than its record, as nothing else in it is nested deep. -/
theorem Model.nesting_le_iff (m : Model) {n : Nat} (hroom : 3 ≤ n) :
    m.encode.nesting ≤ n + 1 ↔ m.record.record.depth ≤ n := by
  have hkernel := Nat.le_trans m.kernel.nesting_encode_le (by omega : 1 ≤ n)
  have hvectors := Nat.le_trans
    (nesting_list_map_le SparseVector.nesting_encode_le m.supportVectors) hroom
  have hcoefficients := Nat.le_trans
    (nesting_list_map_le (fun x => (Json.nesting_double x).le) m.coefficients) (by omega : 1 ≤ n)
  have hindices := Nat.le_trans
    (nesting_list_map_le (fun i => (Json.nesting_nat i).le) m.supportIndices) (by omega : 1 ≤ n)
  have hfeatures := Nat.le_trans m.features.nesting_encode_le hroom
  have hlabels := Nat.le_trans m.labels.nesting_encode_le (by omega : 2 ≤ n)
  rw [encode, nesting_record_le_iff]
  simp only [List.forall_mem_cons, List.not_mem_nil, IsEmpty.forall_iff, implies_true, and_true,
    Json.nesting_double, Nat.zero_le, true_and, hkernel, hvectors, hcoefficients, hindices,
    hfeatures, hlabels, Record.nesting_encode]

/-- A model file is nested two levels deeper than the record in it. -/
theorem ModelFile.nesting_le_iff (f : ModelFile) {n : Nat} (hroom : 3 ≤ n) :
    f.encode.nesting ≤ n + 2 ↔ f.model.record.record.depth ≤ n := by
  rw [encode, nesting_record_le_iff]
  simp only [List.forall_mem_cons, List.not_mem_nil, IsEmpty.forall_iff, implies_true, and_true,
    Json.nesting_nat, Json.nesting_string, Nat.zero_le, true_and, f.model.nesting_le_iff hroom]

/-- What the reader can read, in terms of the file that is written. -/
theorem Model.readable_iff (m : Model) (now : Occasion) :
    m.Readable ↔ (∀ x ∈ m.doubles, x.isFinite = true) ∧
      (ModelFile.ofModel m now).encode.nesting ≤ Json.deepest := by
  have hdeepest : Json.deepest = 125 + 2 := rfl
  rw [hdeepest, ModelFile.nesting_le_iff _ (by decide)]
  constructor
  · intro h
    exact ⟨h.finite, Nat.le_of_add_le_add_right h.shallow⟩
  · intro h
    exact ⟨h.1, Nat.add_le_add_right h.2 2⟩

/-- Whether the values of a model are within the bounds of their types: whole numbers are words, and
maps are in key order. -/
structure Model.InBounds (m : Model) : Prop where
  vectors : ∀ v ∈ m.supportVectors, ∀ i ∈ v.indices, i < UInt64.size
  indices : ∀ i ∈ m.supportIndices, i < UInt64.size
  features : ∀ f ∈ m.features.features, f.id < UInt64.size ∧ f.count < UInt64.size
  labels : ∀ e ∈ m.labels.counts, e.2 < UInt64.size
  labelsAscend : Keyed.Ascending m.labels.counts
  mapsAscend : m.record.record.MapsAscend

/-- The record of a model is accepted if it has its dataset and its trainer. -/
theorem ModelRecord.ofRecord_of_inner {r : ModelRecord} (hkind : r.record.kind = .model)
    (hdataset : ∃ d, r.dataset = .ok d) (htrainer : ∃ t, r.trainer = .ok t) :
    ofRecord r.record = .ok r := by
  obtain ⟨d, hd⟩ := hdataset
  obtain ⟨t, ht⟩ := htrainer
  simp only [ofRecord, hkind, if_true, hd, ht]

namespace ModelFile

variable {disk files : Directory} {path : OsPath} {m : Model} {now : Occasion}

/-- A model that was saved is loaded as it was, with the time of saving, if its record has a dataset
and a trainer, its doubles are finite, and its file is nested no deeper than the reader goes. -/
theorem load_save_of_nesting (hbounds : m.InBounds) (hkind : m.record.record.kind = .model)
    (hdataset : ∃ d, m.record.dataset = .ok d) (htrainer : ∃ t, m.record.trainer = .ok t)
    (hfinite : ∀ x ∈ m.doubles, x.isFinite = true)
    (hnesting : (ofModel m now).encode.nesting ≤ Json.deepest) (htime : now.time.IsValid)
    (hsave : save disk path m now = .ok files) : load files path = .ok (ofModel m now) := by
  have haccepted := ModelRecord.ofRecord_of_inner hkind hdataset htrainer
  have hstorable : m.Storable := { hbounds with accepted := haccepted }
  exact (load_save hstorable htime hsave).1 ((m.readable_iff now).2 ⟨hfinite, hnesting⟩)

section Tangled

open Reproduction (axes isOk_write_axes)

/-- A record with a key that occurs twice in its configured fields, with a list and a map inside
each other, and with objects of the other kinds in both field lists. -/
def tangledRecord : Record where
  kind := .model
  className := "SVMModel"
  configurable := false
  configured :=
    [("note", .text "first"), ("note", .list [.boolean true, .map [("a", .double 0.5)]]),
      ("note", .object .splitDataSource "Split" false [] [("seed", .long (-1))])]
  recorded :=
    [("trainer",
        .object .trainer "SVMTrainer" true [("kernel", .object .component "RBF" true [] [])] []),
      ("dataset", .object .dataset "MutableDataset" false []
        [("source", .object .dataSource "CSVSource" true [] [])])]

/-- A model with one support vector and a tangled record. -/
def tangled : Model where
  kernel := .polynomial 2 0.5 1
  supportVectors := [⟨[0, 2], [1, -0.25]⟩]
  coefficients := [0.75]
  bias := 0.1
  supportIndices := [3]
  features := ⟨[⟨"x", 0, 1, -1, 1⟩]⟩
  labels := ⟨[("-1", 1), ("1", 2)]⟩
  record := ⟨tangledRecord⟩

/-- All numbers of the nested model fit. -/
theorem inBounds_tangled : tangled.InBounds := by
  constructor
  case vectors | indices | features | labels => decide +kernel
  case labelsAscend => exact ⟨by decide +kernel, by simp, trivial⟩
  case mapsAscend =>
    simp [tangled, tangledRecord, Record.MapsAscend, Node.MapsAscendFields, Node.MapsAscend,
      Node.MapsAscendItems, Keyed.Ascending, Node.text, Node.double, Node.boolean, Node.long]

/-- A model whose record holds repeated keys, a map in a list and objects in both field lists comes
back with all of them. -/
theorem load_save_of_nesting_tangled :
    ∃ files, save axes (.ofText "model.json") tangled minuteOne = .ok files ∧
      load files (.ofText "model.json") = .ok (ofModel tangled minuteOne) := by
  have hfinite : tangled.doubles.all Float.isFinite = true := by decide +kernel
  have hnesting : (ofModel tangled minuteOne).encode.nesting ≤ Json.deepest := by
    exact (nesting_le_iff _ (by decide : 3 ≤ 125)).2 (by decide +kernel)
  obtain ⟨files, hsave⟩ := exists_save isOk_write_axes tangled minuteOne
  exact ⟨files, hsave, load_save_of_nesting inBounds_tangled rfl ⟨_, rfl⟩ ⟨_, rfl⟩
    (List.all_eq_true.1 hfinite) hnesting isValid_minuteOne hsave⟩

end Tangled

end ModelFile
end Retrace
