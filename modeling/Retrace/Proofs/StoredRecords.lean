import Retrace.Proofs.JsonDoubles

/-!
# Records as JSON are read back

A record is read from the JSON that it is written as if there is room for its depth and if every
double in it is finite; and it is read under no other conditions.  Maps must be in key order, as
maps are, for the reader brings them in that order.

Main results:

- Theorem `Record.read_encode`: a record is read back where there is room for its depth.
- Theorem `Record.fits_of_read`: only where there is room for its depth, and only if its doubles are
  finite, is a record read at all.
-/

namespace Retrace
namespace Node

/-! ## Depth and doubles -/

mutual

/-- How many lists and objects the JSON of a node nests. -/
def depth : Node → Nat
  | .primitive _ => 2
  | .list items => depthItems items + 2
  | .map entries => depthEntries entries + 2
  | .object _ _ _ configured recorded => max (depthFields configured) (depthFields recorded) + 3

/-- How many lists and objects the items of a list nest. -/
def depthItems : List Node → Nat
  | [] => 0
  | n :: rest => max n.depth (depthItems rest)

/-- How many lists and objects the entries of a map nest. -/
def depthEntries : List (String × Node) → Nat
  | [] => 0
  | (_, n) :: rest => max n.depth (depthEntries rest)

/-- How many lists and objects the fields of a record nest, every field being a pair. -/
def depthFields : List (String × Node) → Nat
  | [] => 0
  | (_, n) :: rest => max (n.depth + 1) (depthFields rest)

end

mutual

/-- The doubles in a node. -/
def doubles : Node → List Float
  | .primitive (.double x) => [x]
  | .primitive _ => []
  | .list items => doublesItems items
  | .map entries => doublesFields entries
  | .object _ _ _ configured recorded => doublesFields configured ++ doublesFields recorded

/-- The doubles in the items of a list. -/
def doublesItems : List Node → List Float
  | [] => []
  | n :: rest => n.doubles ++ doublesItems rest

/-- The doubles in fields. -/
def doublesFields : List (String × Node) → List Float
  | [] => []
  | (_, n) :: rest => n.doubles ++ doublesFields rest

end

mutual

/-- Whether the maps in a node are in key order. -/
def MapsAscend : Node → Prop
  | .primitive _ => True
  | .list items => MapsAscendItems items
  | .map entries => Keyed.Ascending entries ∧ MapsAscendFields entries
  | .object _ _ _ configured recorded => MapsAscendFields configured ∧ MapsAscendFields recorded

/-- Whether the maps in the items of a list are in key order. -/
def MapsAscendItems : List Node → Prop
  | [] => True
  | n :: rest => n.MapsAscend ∧ MapsAscendItems rest

/-- Whether the maps in fields are in key order. -/
def MapsAscendFields : List (String × Node) → Prop
  | [] => True
  | (_, n) :: rest => n.MapsAscend ∧ MapsAscendFields rest

end

end Node

namespace Record

/-- How many lists and objects the JSON of a record nests. -/
def depth (r : Record) : Nat :=
  max (Node.depthFields r.configured) (Node.depthFields r.recorded) + 2

/-- The doubles in a record. -/
def doubles (r : Record) : List Float :=
  Node.doublesFields r.configured ++ Node.doublesFields r.recorded

/-- Whether the maps in a record are in key order. -/
def MapsAscend (r : Record) : Prop :=
  Node.MapsAscendFields r.configured ∧ Node.MapsAscendFields r.recorded

end Record

/-- A record as a node is one deeper. -/
theorem Node.depth_node (r : Record) : r.node.depth = r.depth + 1 := rfl

/-! ## What is written is JSON -/

@[simp] theorem Primitive.isWritten_encode (p : Primitive) : p.encode.isWritten = true := by
  cases p <;> simp [encode]

namespace Node

mutual

/-- The encoding of a tree can be written, whatever its doubles are. -/
@[simp] theorem isWritten_encode : ∀ n : Node, n.encode.isWritten = true
  | .primitive p => by simp [encode]
  | .list items => by
      have hitems := isWritten_encodeItems items
      simp only [encode, Json.isWritten_record, List.all_cons, List.all_nil, Bool.and_true,
        Json.isWritten_list, hitems]
  | .map entries => by
      have hentries := isWritten_encodeEntries entries
      simp only [encode, Json.isWritten_record, List.all_cons, List.all_nil, Bool.and_true,
        Json.isWritten, hentries]
  | .object kind className configurable configured recorded => by
      have hconfigured := isWritten_encodeFields configured
      have hrecorded := isWritten_encodeFields recorded
      simp only [encode, Json.isWritten_record, List.all_cons, List.all_nil, Bool.and_true,
        Json.isWritten_string, Json.isWritten_boolean, Json.isWritten_list, hconfigured, hrecorded]

/-- The encodings of the items of a list can be written. -/
theorem isWritten_encodeItems : ∀ items : List Node, (encodeItems items).all Json.isWritten = true
  | [] => rfl
  | n :: rest => by
      rw [encodeItems, List.all_cons, isWritten_encode n, isWritten_encodeItems rest]
      rfl

/-- The encodings of the entries of a map can be written. -/
theorem isWritten_encodeEntries : ∀ entries : List (String × Node),
    Json.writtenMembers (encodeEntries entries) = true
  | [] => rfl
  | (key, n) :: rest => by
      rw [encodeEntries, Json.writtenMembers, Json.isBody_escape, isWritten_encode n,
        isWritten_encodeEntries rest]
      rfl

/-- The encodings of the fields of a record can be written. -/
theorem isWritten_encodeFields : ∀ fields : List (String × Node),
    (encodeFields fields).all Json.isWritten = true
  | [] => rfl
  | (key, n) :: rest => by
      rw [encodeFields, List.all_cons, isWritten_encodeFields rest]
      simp [isWritten_encode n]

end

end Node

/-- The encoding of a record can be written. -/
@[simp] theorem Record.isWritten_encode (r : Record) : r.encode.isWritten = true := by
  have hnode := Node.isWritten_encode r.node
  rwa [Node.encode_node, Json.isWritten_record, List.all_cons, List.all_nil, Bool.and_true] at hnode

/-! ## What is written is read -/

/-- A kind is read back from its name. -/
theorem RecordKind.read_name (depth : Nat) (kind : RecordKind) :
    RecordKind.read depth (.string kind.name) = some kind := by
  have hname : RecordKind.ofName? kind.name = some kind := by cases kind <;> rfl
  simp only [read, Json.string, Json.bodyText?_escape, Option.bind_some, hname]

/-- A primitive whose double is finite is read back. -/
theorem Primitive.read_encode_of_finite {p : Primitive}
    (h : ∀ x ∈ (Node.primitive p).doubles, x.isFinite = true) (depth : Nat) :
    read (depth + 1) p.encode = some p := by
  cases p with
  | double x =>
      have hx := h x (by simp [Node.doubles])
      simp [read, encode, Json.variant?_record, Json.double?_double, hx]
  | long n => simp [read, encode, Json.variant?_record, Json.long?_int]
  | text s => exact Primitive.read_encode depth (.inl ⟨s, rfl⟩)
  | boolean b => exact Primitive.read_encode depth (.inr ⟨b, rfl⟩)

/-- A record is read exactly if its fields are. -/
theorem Record.read_succ (r : Record) (depth : Nat) :
    Record.read (depth + 1) r.encode =
      match Node.readFields depth (.list (Node.encodeFields r.configured)),
        Node.readFields depth (.list (Node.encodeFields r.recorded)) with
      | some configured, some recorded =>
          some { r with configured := configured, recorded := recorded }
      | _, _ => none := by
  have hfields := @Json.fields?_record [("kind", .string r.kind.name),
    ("class-name", .string r.className), ("configurable", .boolean r.configurable),
    ("configured", .list (Node.encodeFields r.configured)),
    ("instance", .list (Node.encodeFields r.recorded))] (by simp)
  simp only [List.map_cons, List.map_nil] at hfields
  rw [Record.read, encode, hfields]
  simp only [RecordKind.read_name, Json.string?_string, Json.boolean?]
  cases Node.readFields depth (.list (Node.encodeFields r.configured)) <;>
    cases Node.readFields depth (.list (Node.encodeFields r.recorded)) <;> rfl

namespace Node

theorem read_primitive (p : Primitive) (depth : Nat) :
    read (depth + 1) (Node.primitive p).encode =
      (Primitive.read depth p.encode).map Node.primitive := by
  rw [read, encode, Json.variant?_record]
  rfl

theorem read_list (items : List Node) (depth : Nat) :
    read (depth + 2) (Node.list items).encode =
      (Json.each? (read depth) (encodeItems items)).map Node.list := by
  rw [read, encode, Json.variant?_record]
  simp [readItems, Json.list?]

/-- A map is read entry by entry. -/
theorem read_map (entries : List (String × Node)) (depth : Nat) :
    read (depth + 2) (Node.map entries).encode =
      (Json.entries? (read depth) (encodeEntries entries)).map fun found =>
        Node.map (Keyed.ofList found) := by
  rw [read, encode, Json.variant?_record]
  simp [readEntries, Json.map?, Option.map_map, Function.comp_def]

/-- A record is read inside a node exactly as it is read by itself. -/
theorem read_node (r : Record) (depth : Nat) :
    read (depth + 1) r.node.encode = (Record.read depth r.encode).map Record.node := by
  rw [read, encode_node, Json.variant?_record]
  simp

mutual

/-- A node is read back where there is room for its depth. -/
theorem read_encode : ∀ (n : Node) {depth : Nat}, n.MapsAscend →
    (∀ x ∈ n.doubles, x.isFinite = true) → n.depth ≤ depth → read depth n.encode = some n
  | .primitive p, depth, _, hfinite, hdepth => by
      rw [Node.depth] at hdepth
      obtain ⟨room, rfl⟩ : ∃ room, depth = room + 2 := ⟨depth - 2, by omega⟩
      rw [read_primitive, Primitive.read_encode_of_finite hfinite, Option.map_some]
  | .list items, depth, hmaps, hfinite, hdepth => by
      rw [Node.depth] at hdepth
      obtain ⟨room, rfl⟩ : ∃ room, depth = room + 2 := ⟨depth - 2, by omega⟩
      rw [read_list, readItems_encodeItems items hmaps hfinite (by omega), Option.map_some]
  | .map entries, depth, hmaps, hfinite, hdepth => by
      rw [Node.depth] at hdepth
      obtain ⟨room, rfl⟩ : ∃ room, depth = room + 2 := ⟨depth - 2, by omega⟩
      rw [read_map, readEntries_encodeEntries entries hmaps.2 hfinite (by omega),
        Option.map_some, Keyed.ofList_of_ascending hmaps.1]
  | .object kind className configurable configured recorded, depth, hmaps, hfinite, hdepth => by
      rw [Node.depth] at hdepth
      simp only [doubles, List.forall_mem_append] at hfinite
      obtain ⟨room, rfl⟩ : ∃ room, depth = room + 3 := ⟨depth - 3, by omega⟩
      have hconfigured := readFields_encodeFields configured hmaps.1 hfinite.1
        (by omega : _ ≤ room)
      have hrecorded := readFields_encodeFields recorded hmaps.2 hfinite.2 (by omega : _ ≤ room)
      have hrecord := Record.read_succ ⟨kind, className, configurable, configured, recorded⟩
        (room + 1)
      simp only [readFields, Json.list?, Option.bind_some, hconfigured, hrecorded] at hrecord
      have hnode := read_node ⟨kind, className, configurable, configured, recorded⟩ (room + 2)
      rw [hrecord, Option.map_some] at hnode
      exact hnode

/-- Items with finite doubles that are not too deep are read back. -/
theorem readItems_encodeItems : ∀ (items : List Node) {depth : Nat}, MapsAscendItems items →
    (∀ x ∈ doublesItems items, x.isFinite = true) → depthItems items ≤ depth →
      Json.each? (read depth) (encodeItems items) = some items
  | [], _, _, _, _ => rfl
  | n :: rest, depth, hmaps, hfinite, hdepth => by
      rw [depthItems] at hdepth
      simp only [doublesItems, List.forall_mem_append] at hfinite
      rw [encodeItems, Json.each?, read_encode n hmaps.1 hfinite.1 (by omega),
        readItems_encodeItems rest hmaps.2 hfinite.2 (by omega)]

/-- The entries of a map are read back at any depth that they fit into. -/
theorem readEntries_encodeEntries : ∀ (entries : List (String × Node)) {depth : Nat},
    MapsAscendFields entries → (∀ x ∈ doublesFields entries, x.isFinite = true) →
      depthEntries entries ≤ depth →
        Json.entries? (read depth) (encodeEntries entries) = some entries
  | [], _, _, _, _ => rfl
  | (key, n) :: rest, depth, hmaps, hfinite, hdepth => by
      rw [depthEntries] at hdepth
      simp only [doublesFields, List.forall_mem_append] at hfinite
      rw [encodeEntries, Json.entries?, read_encode n hmaps.1 hfinite.1 (by omega),
        readEntries_encodeEntries rest hmaps.2 hfinite.2 (by omega), Json.bodyText?_escape]

/-- The fields of a record are read back at any depth that they fit into. -/
theorem readFields_encodeFields : ∀ (fields : List (String × Node)) {depth : Nat},
    MapsAscendFields fields → (∀ x ∈ doublesFields fields, x.isFinite = true) →
      depthFields fields ≤ depth →
        Json.each? (readField depth) (encodeFields fields) = some fields
  | [], _, _, _, _ => rfl
  | (key, n) :: rest, depth, hmaps, hfinite, hdepth => by
      rw [depthFields] at hdepth
      simp only [doublesFields, List.forall_mem_append] at hfinite
      obtain ⟨room, rfl⟩ : ∃ room, depth = room + 1 := ⟨depth - 1, by omega⟩
      have hfield : readField (room + 1) (.list [.string key, n.encode]) = some (key, n) := by
        rw [readField, read_encode n hmaps.1 hfinite.1 (by omega), Json.string?_string]
      rw [encodeFields, Json.each?, hfield,
        readFields_encodeFields rest hmaps.2 hfinite.2 (by omega)]

end

end Node

/-- A record is read back where there is room for its depth. -/
theorem Record.read_encode {r : Record} {depth : Nat} (hmaps : r.MapsAscend)
    (hfinite : ∀ x ∈ r.doubles, x.isFinite = true) (hdepth : r.depth ≤ depth) :
    Record.read depth r.encode = some r := by
  have hnode := @Node.read_encode r.node (depth + 1) hmaps hfinite (Nat.succ_le_succ hdepth)
  rw [Node.read_node, Option.map_eq_some_iff] at hnode
  obtain ⟨found, hfound, hsame⟩ := hnode
  obtain rfl : found = r := by
    have hrecord := congrArg Node.record? hsame
    rw [Node.record?_node, Node.record?_node] at hrecord
    exact Option.some.inj hrecord
  exact hfound

/-! ## What is read fits -/

/-- A primitive that is read back has finite doubles, and one level for it. -/
theorem Primitive.fits_of_read {p : Primitive} {depth : Nat}
    (h : (Primitive.read depth p.encode).isSome = true) :
    1 ≤ depth ∧ ∀ x ∈ (Node.primitive p).doubles, x.isFinite = true := by
  rw [read] at h
  by_cases hdepth : depth = 0
  · rw [if_pos hdepth] at h
    simp at h
  · refine ⟨Nat.pos_of_ne_zero hdepth, ?_⟩
    rw [if_neg hdepth] at h
    cases p with
    | double x =>
        simpa [encode, Json.variant?_record, Json.double?_double, Node.doubles] using h
    | _ => simp [Node.doubles]

namespace Node

mutual

/-- A node is read only where there is room for its depth, and only if its doubles are finite. -/
theorem fits_of_read : ∀ (n : Node) {depth : Nat}, (read depth n.encode).isSome = true →
    n.depth ≤ depth ∧ ∀ x ∈ n.doubles, x.isFinite = true
  | n, 0, h => by simp [read] at h
  | .primitive p, depth + 1, h => by
      rw [read_primitive, Option.isSome_map] at h
      obtain ⟨hdepth, hfinite⟩ := Primitive.fits_of_read h
      exact ⟨Nat.succ_le_succ hdepth, hfinite⟩
  | .list items, 1, h => by simp [read, encode, Json.variant?_record, readItems] at h
  | .list items, depth + 2, h => by
      rw [read_list, Option.isSome_map] at h
      obtain ⟨hdepth, hfinite⟩ := fits_of_readItems items h
      exact ⟨Nat.add_le_add_right hdepth 2, hfinite⟩
  | .map entries, 1, h => by simp [read, encode, Json.variant?_record, readEntries] at h
  | .map entries, depth + 2, h => by
      rw [read_map, Option.isSome_map] at h
      obtain ⟨hdepth, hfinite⟩ := fits_of_readEntries entries h
      exact ⟨Nat.add_le_add_right hdepth 2, hfinite⟩
  | .object kind className configurable configured recorded, depth + 1, h => by
      have hnode : (read (depth + 1) (Record.mk kind className configurable configured
          recorded).node.encode).isSome = true := h
      rw [read_node, Option.isSome_map] at hnode
      match depth with
      | 0 => simp [Record.read] at hnode
      | 1 => simp [Record.read_succ, readFields] at hnode
      | depth + 2 =>
          simp only [Record.read_succ, readFields, Json.list?, Option.bind_some] at hnode
          have hboth : (Json.each? (readField depth) (encodeFields configured)).isSome = true ∧
              (Json.each? (readField depth) (encodeFields recorded)).isSome = true := by
            revert hnode
            cases Json.each? (readField depth) (encodeFields configured) <;>
              cases Json.each? (readField depth) (encodeFields recorded) <;> simp
          obtain ⟨hconfigured, hfinite⟩ := fits_of_readFields configured hboth.1
          obtain ⟨hrecorded, hmore⟩ := fits_of_readFields recorded hboth.2
          exact ⟨Nat.add_le_add_right (Nat.max_le.2 ⟨hconfigured, hrecorded⟩) 3,
            List.forall_mem_append.2 ⟨hfinite, hmore⟩⟩

/-- Items that are read back are not too deep and have finite doubles. -/
theorem fits_of_readItems : ∀ (items : List Node) {depth : Nat},
    (Json.each? (read depth) (encodeItems items)).isSome = true →
      depthItems items ≤ depth ∧ ∀ x ∈ doublesItems items, x.isFinite = true
  | [], _, _ => by simp [depthItems, doublesItems]
  | n :: rest, depth, h => by
      rw [encodeItems, Json.isSome_each?_cons, Bool.and_eq_true] at h
      obtain ⟨hfirst, hfinite⟩ := fits_of_read n h.1
      obtain ⟨hrest, hmore⟩ := fits_of_readItems rest h.2
      exact ⟨Nat.max_le.2 ⟨hfirst, hrest⟩, List.forall_mem_append.2 ⟨hfinite, hmore⟩⟩

/-- Entries that can be read fit into the depth, and their doubles are finite. -/
theorem fits_of_readEntries : ∀ (entries : List (String × Node)) {depth : Nat},
    (Json.entries? (read depth) (encodeEntries entries)).isSome = true →
      depthEntries entries ≤ depth ∧ ∀ x ∈ doublesFields entries, x.isFinite = true
  | [], _, _ => by simp [depthEntries, doublesFields]
  | (key, n) :: rest, depth, h => by
      rw [encodeEntries, Json.isSome_entries?_cons, Bool.and_eq_true] at h
      obtain ⟨hfirst, hfinite⟩ := fits_of_read n h.1
      obtain ⟨hrest, hmore⟩ := fits_of_readEntries rest h.2
      exact ⟨Nat.max_le.2 ⟨hfirst, hrest⟩, List.forall_mem_append.2 ⟨hfinite, hmore⟩⟩

/-- Fields that can be read fit into the depth, and their doubles are finite. -/
theorem fits_of_readFields : ∀ (fields : List (String × Node)) {depth : Nat},
    (Json.each? (readField depth) (encodeFields fields)).isSome = true →
      depthFields fields ≤ depth ∧ ∀ x ∈ doublesFields fields, x.isFinite = true
  | [], _, _ => by simp [depthFields, doublesFields]
  | (key, n) :: rest, depth, h => by
      rw [encodeFields, Json.isSome_each?_cons, Bool.and_eq_true] at h
      obtain ⟨hrest, hmore⟩ := fits_of_readFields rest h.2
      cases depth with
      | zero => simp [readField] at h
      | succ depth =>
          have hread : (read depth n.encode).isSome = true := by
            cases hread : read depth n.encode with
            | none => simp [readField, hread] at h
            | some found => rfl
          obtain ⟨hfirst, hfinite⟩ := fits_of_read n hread
          exact ⟨Nat.max_le.2 ⟨Nat.succ_le_succ hfirst, hrest⟩,
            List.forall_mem_append.2 ⟨hfinite, hmore⟩⟩

end

end Node

/-- A record is read only where there is room for its depth, and only if its doubles are finite. -/
theorem Record.fits_of_read {r : Record} {depth : Nat}
    (h : (Record.read depth r.encode).isSome = true) :
    r.depth ≤ depth ∧ ∀ x ∈ r.doubles, x.isFinite = true := by
  have hnode : (Node.read (depth + 1) r.node.encode).isSome = true := by
    rwa [Node.read_node, Option.isSome_map]
  obtain ⟨hdepth, hfinite⟩ := Node.fits_of_read r.node hnode
  rw [Node.depth_node] at hdepth
  exact ⟨Nat.le_of_succ_le_succ hdepth, hfinite⟩

end Retrace
