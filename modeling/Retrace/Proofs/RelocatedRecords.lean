import Retrace.Proofs.Lineage

/-!
# Records with another path

The path of every data source in a record tree is replaced, wherever the source stands.  A path is a
primitive, so no object comes or goes: the objects keep their numbers, and what is read of them
under other keys stays.

Main results:

- Theorem `stays`: the objects of the new tree are those of the old one with another path, at the
  same places.
- Theorem `inner?_relocate`: so is an inner object.
- Theorem `ofRecord_relocate`: the dependency order stays.
-/

namespace Retrace

/-! ## Setting paths -/

/-- Fields with a text under the key of paths, in place of what was there or behind the others. -/
def Fields.setPath (path : String) (fields : Fields) : Fields :=
  if Keyed.hasKey "path" fields then
    fields.map fun e => if e.1 = "path" then (e.1, .text path) else e
  else fields ++ [("path", .text path)]

/-- Whether no field under the key of paths holds anything but a primitive. -/
def Fields.pathPlain (fields : Fields) : Bool :=
  fields.all fun e => e.1 != "path" || e.2.primitive?.isSome

/-- Whether an object of a class can be rebuilt as a data source. -/
def makesSource (className : String) (configurable : Bool) : Bool :=
  configurable && Catalog.standard.kindOf? className == some .dataSource

namespace Node

mutual

/-- A node with the path of every data source in it set. -/
def relocate (path : String) : Node → Node
  | .primitive value => .primitive value
  | .list items => .list (relocateItems path items)
  | .map entries => .map (relocateFields path entries)
  | .object kind className configurable configured recorded =>
      .object kind className configurable
        (if makesSource className configurable then
          Fields.setPath path (relocateFields path configured)
        else relocateFields path configured)
        (relocateFields path recorded)

/-- The items of a list with the path of every data source in them set. -/
def relocateItems (path : String) : List Node → List Node
  | [] => []
  | n :: rest => n.relocate path :: relocateItems path rest

/-- Fields with the path of every data source in them set. -/
def relocateFields (path : String) : List (String × Node) → List (String × Node)
  | [] => []
  | (key, n) :: rest => (key, n.relocate path) :: relocateFields path rest

end

mutual

/-- Whether the path that any data source in a node is configured with is a primitive. -/
def pathsPlain : Node → Bool
  | .primitive _ => true
  | .list items => pathsPlainItems items
  | .map entries => pathsPlainFields entries
  | .object _ className configurable configured recorded =>
      (!makesSource className configurable || Fields.pathPlain configured) &&
        (pathsPlainFields configured && pathsPlainFields recorded)

/-- Whether the path that any data source in the items of a list is configured with is a
primitive. -/
def pathsPlainItems : List Node → Bool
  | [] => true
  | n :: rest => n.pathsPlain && pathsPlainItems rest

/-- Whether the path that any data source in fields is configured with is a primitive. -/
def pathsPlainFields : List (String × Node) → Bool
  | [] => true
  | (_, n) :: rest => n.pathsPlain && pathsPlainFields rest

end

end Node

namespace Record

/-- Whether a record is that of an object that can be rebuilt as a data source. -/
def isSource (r : Record) : Bool :=
  makesSource r.className r.configurable

/-- A record with its path set if it is a data source, and with the path of every data source inside
it set. -/
def relocate (path : String) (r : Record) : Record where
  kind := r.kind
  className := r.className
  configurable := r.configurable
  configured :=
    if r.isSource then Fields.setPath path (Node.relocateFields path r.configured)
    else Node.relocateFields path r.configured
  recorded := Node.relocateFields path r.recorded

/-- Whether the path that any data source in a record, the record itself included, is configured
with is a primitive. -/
def pathsPlain (r : Record) : Bool :=
  r.node.pathsPlain

end Record

/-- An object with the path of every data source in it set, at its place. -/
def Occurrence.relocate (path : String) (o : Occurrence) : Occurrence :=
  ⟨o.record.relocate path, o.first⟩

/-- An order of objects with the path of every data source in them set. -/
def DependencyOrder.relocate (path : String) (order : DependencyOrder) : DependencyOrder :=
  ⟨order.occurrences.map (Occurrence.relocate path), order.sequence⟩

/-- The record of a model with the path of every data source in it set. -/
def ModelRecord.relocate (path : String) (m : ModelRecord) : ModelRecord :=
  ⟨m.record.relocate path⟩

/-! ## What is read without the path -/

theorem Node.primitive?_relocate (path : String) (n : Node) :
    (n.relocate path).primitive? = n.primitive? := by
  cases n <;> rfl

/-- An object is relocated as an object. -/
theorem Node.record?_relocate (path : String) (n : Node) :
    (n.relocate path).record? = n.record?.map (Record.relocate path) := by
  cases n <;> rfl

/-- A node keeps the name of its kind. -/
theorem Node.kindName_relocate (path : String) (n : Node) :
    (n.relocate path).kindName = n.kindName := by
  cases n <;> rfl

/-- Fields are relocated one by one. -/
theorem Node.relocateFields_append (path : String) (a b : Fields) :
    relocateFields path (a ++ b) = relocateFields path a ++ relocateFields path b := by
  induction a with
  | nil => rfl
  | cons e a ih => simp only [List.cons_append, relocateFields, ih]

/-- Paths are plain in all fields if they are so in both parts. -/
theorem Node.pathsPlainFields_append (a b : Fields) :
    pathsPlainFields (a ++ b) = (pathsPlainFields a && pathsPlainFields b) := by
  induction a with
  | nil => rfl
  | cons e a ih => simp only [List.cons_append, pathsPlainFields, ih, Bool.and_assoc]

theorem Fields.pathPlain_relocateFields (path : String) (fields : Fields) :
    pathPlain (Node.relocateFields path fields) = pathPlain fields := by
  unfold pathPlain
  induction fields with
  | nil => rfl
  | cons e rest ih =>
      simp only [Node.relocateFields, List.all_cons, Node.primitive?_relocate, ih]

/-- The fields of a record whose paths are primitives. -/
theorem Record.pathsPlain_iff {r : Record} :
    r.pathsPlain = true ↔ (r.isSource = true → Fields.pathPlain r.configured = true) ∧
      Node.pathsPlainFields r.fields = true := by
  rw [pathsPlain, node, Node.pathsPlain, fields, Node.pathsPlainFields_append, isSource]
  cases makesSource r.className r.configurable <;> simp

/-! ## Fields that differ in their paths -/

/-- Whether fields differ from others in primitives under the key of paths alone, which may stand
in place of primitives or may be added. -/
inductive Fields.Repathed : Fields → Fields → Prop
  | nil : Repathed [] []
  | same (e : String × Node) {a b : Fields} (h : Repathed a b) : Repathed (e :: a) (e :: b)
  | replaced (old new : Primitive) {a b : Fields} (h : Repathed a b) :
      Repathed (("path", .primitive old) :: a) (("path", .primitive new) :: b)
  | added (new : Primitive) {a b : Fields} (h : Repathed a b) :
      Repathed a (("path", .primitive new) :: b)

namespace Fields

theorem Repathed.refl (fields : Fields) : Repathed fields fields := by
  induction fields with
  | nil => exact .nil
  | cons e rest ih => exact .same e ih

/-- Behind the fields the same fields may follow. -/
theorem Repathed.append {a b : Fields} (h : Repathed a b) (c : Fields) :
    Repathed (a ++ c) (b ++ c) := by
  induction h with
  | nil => exact .refl c
  | same e h ih => exact .same e ih
  | replaced old new h ih => exact .replaced old new ih
  | added new h ih => exact .added new ih

/-- Setting a path, where paths are primitives, changes primitives under the key of paths alone. -/
theorem repathed_setPath (path : String) {fields : Fields} (hplain : pathPlain fields = true) :
    Repathed fields (setPath path fields) := by
  rw [setPath]
  split
  · clear *- hplain
    induction fields with
    | nil => exact .nil
    | cons e rest ih =>
        rcases e with ⟨key, n⟩
        rw [pathPlain, List.all_cons, Bool.and_eq_true] at hplain
        by_cases hkey : key = "path"
        · subst hkey
          cases n with
          | primitive old =>
              rw [List.map_cons, if_pos rfl]
              exact .replaced old _ (ih hplain.2)
          | _ => exact absurd hplain.1 (by simp [Node.primitive?])
        · rw [List.map_cons, if_neg hkey]
          exact .same _ (ih hplain.2)
  · have hadded : Repathed ([] ++ fields) (fields ++ [("path", .text path)]) := by
      rw [List.nil_append]
      clear *-
      induction fields with
      | nil => exact .added _ .nil
      | cons e rest ih => exact .same e ih
    exact hadded

/-- Where a path was set it is the only one. -/
theorem eq_of_mem_setPath {path : String} {fields : Fields} {e : String × Node}
    (he : e ∈ setPath path fields) (hkey : e.1 = "path") : e.2 = .text path := by
  rw [setPath] at he
  split at he
  · obtain ⟨f, -, rfl⟩ := List.mem_map.1 he
    split at hkey
    · rename_i hpath
      rw [if_pos hpath]
    · contradiction
  · rename_i habsent
    rcases List.mem_append.1 he with he | he
    · have hpresent : Keyed.hasKey "path" fields = true := by
        rw [Keyed.hasKey, List.any_eq_true]
        exact ⟨e, he, beq_iff_eq.2 hkey⟩
      exact absurd hpresent habsent
    · rw [List.mem_singleton.1 he]

namespace Repathed

variable {a b : Fields}

theorem objectsFields_eq (h : Repathed a b) : Node.objectsFields b = Node.objectsFields a := by
  induction h with
  | nil => rfl
  | same e h ih => simp only [Node.objectsFields, ih]
  | replaced old new h ih => simp only [Node.objectsFields, Node.objects, ih]
  | added new h ih => simp only [Node.objectsFields, Node.objects, ih, Nat.zero_add]

theorem occurrencesFields_eq (h : Repathed a b) (first : Nat) :
    Node.occurrencesFields first b = Node.occurrencesFields first a := by
  induction h generalizing first with
  | nil => rfl
  | same e h ih => simp only [Node.occurrencesFields, ih]
  | replaced old new h ih =>
      simp only [Node.occurrencesFields, Node.occurrences, Node.objects, ih]
  | added new h ih =>
      simp only [Node.occurrencesFields, Node.occurrences, Node.objects, ih, List.nil_append,
        Nat.add_zero]

theorem outermostFields_eq (h : Repathed a b) (first : Nat) :
    Node.outermostFields first b = Node.outermostFields first a := by
  induction h generalizing first with
  | nil => rfl
  | same e h ih => simp only [Node.outermostFields, ih]
  | replaced old new h ih => simp only [Node.outermostFields, Node.outermost, Node.objects, ih]
  | added new h ih =>
      simp only [Node.outermostFields, Node.outermost, Node.objects, ih, List.nil_append,
        Nat.add_zero]

/-- What is found under another key is the same. -/
theorem locate_eq (h : Repathed a b) {key : String} (hkey : key ≠ "path") (first : Nat) :
    Occurrence.locate key first b = Occurrence.locate key first a := by
  induction h generalizing first with
  | nil => rfl
  | same e h ih => simp only [Occurrence.locate, ih]
  | replaced old new h ih =>
      simp only [Occurrence.locate, hkey.symm, if_false, Node.objects, ih]
  | added new h ih =>
      simp only [Occurrence.locate, hkey.symm, if_false, Node.objects, ih, Nat.add_zero]

end Repathed

end Fields

/-- The fields of a record with another path are its fields, relocated one by one, but for the
path. -/
theorem Record.repathed_fields {r : Record} (hplain : r.pathsPlain = true) (path : String) :
    Fields.Repathed (Node.relocateFields path r.fields) (r.relocate path).fields := by
  rw [fields, fields, Node.relocateFields_append]
  apply Fields.Repathed.append
  rw [relocate]
  split
  · rename_i hsource
    apply Fields.repathed_setPath
    rw [Fields.pathPlain_relocateFields]
    exact (pathsPlain_iff.1 hplain).1 hsource
  · exact .refl _

/-! ## Objects at their places -/

namespace Node

/-- Whether the objects of a node keep their places when its paths are set. -/
structure Stays (path : String) (n : Node) : Prop where
  objects : (n.relocate path).objects = n.objects
  occurrences : ∀ first, (n.relocate path).occurrences first =
    (n.occurrences first).map (Occurrence.relocate path)
  outermost : ∀ first, (n.relocate path).outermost first = n.outermost first

/-- Whether the objects of items keep their places when their paths are set. -/
structure StaysItems (path : String) (items : List Node) : Prop where
  objects : objectsItems (relocateItems path items) = objectsItems items
  occurrences : ∀ first, occurrencesItems first (relocateItems path items) =
    (occurrencesItems first items).map (Occurrence.relocate path)
  outermost : ∀ first,
    outermostItems first (relocateItems path items) = outermostItems first items

/-- Whether the objects of fields keep their places when their paths are set. -/
structure StaysFields (path : String) (fields : Fields) : Prop where
  objects : objectsFields (relocateFields path fields) = objectsFields fields
  occurrences : ∀ first, occurrencesFields first (relocateFields path fields) =
    (occurrencesFields first fields).map (Occurrence.relocate path)
  outermost : ∀ first,
    outermostFields first (relocateFields path fields) = outermostFields first fields

/-- An object stands before what its fields hold. -/
theorem occurrences_node (r : Record) (first : Nat) :
    r.node.occurrences first = ⟨r, first + 1⟩ :: occurrencesFields (first + 1) r.fields := by
  rw [Record.node, occurrences, Record.fields, occurrencesFields_append]

/-- An object counts with what its fields hold. -/
theorem objects_node (r : Record) : r.node.objects = objectsFields r.fields + 1 := by
  rw [Record.node, objects, Record.fields, objectsFields_append]

/-- The objects of a record stay at their places if those of its fields do. -/
theorem stays_node {path : String} {r : Record} (hplain : r.pathsPlain = true)
    (h : StaysFields path r.fields) : r.node.Stays path := by
  have hfields := Record.repathed_fields hplain path
  have hnode : r.node.relocate path = (r.relocate path).node := by
    rw [Record.node, relocate]
    rfl
  constructor
  · rw [hnode, objects_node, objects_node, hfields.objectsFields_eq, h.objects]
  · intro first
    rw [hnode, occurrences_node, occurrences_node, hfields.occurrencesFields_eq, h.occurrences]
    rfl
  · intro first
    rfl

/-- Fields that keep their places may follow each other. -/
theorem StaysFields.append {path : String} {a b : Fields} (ha : StaysFields path a)
    (hb : StaysFields path b) : StaysFields path (a ++ b) := by
  constructor
  · rw [relocateFields_append, objectsFields_append, objectsFields_append, ha.objects, hb.objects]
  · intro first
    rw [relocateFields_append, occurrencesFields_append, occurrencesFields_append, ha.objects,
      ha.occurrences, hb.occurrences, List.map_append]
  · intro first
    rw [relocateFields_append, outermostFields_append, outermostFields_append, ha.objects,
      ha.outermost, hb.outermost]

mutual

/-- The objects of a node stay at their places. -/
theorem stays (path : String) : (n : Node) → n.pathsPlain = true → n.Stays path
  | .primitive value, _ => ⟨rfl, fun _ => rfl, fun _ => rfl⟩
  | .list items, h => by
      have hitems := staysItems path items h
      exact ⟨hitems.objects, hitems.occurrences, hitems.outermost⟩
  | .map entries, h => by
      have hentries := staysFields path entries h
      exact ⟨hentries.objects, hentries.occurrences, hentries.outermost⟩
  | .object kind className configurable configured recorded, h => by
      have hfields := h
      rw [pathsPlain, Bool.and_eq_true, Bool.and_eq_true] at hfields
      exact stays_node (r := ⟨kind, className, configurable, configured, recorded⟩) h
        ((staysFields path configured hfields.2.1).append
          (staysFields path recorded hfields.2.2))

/-- The items of a list keep their places. -/
theorem staysItems (path : String) :
    (items : List Node) → pathsPlainItems items = true → StaysItems path items
  | [], _ => ⟨rfl, fun _ => rfl, fun _ => rfl⟩
  | n :: rest, h => by
      rw [pathsPlainItems, Bool.and_eq_true] at h
      have hn := stays path n h.1
      have hrest := staysItems path rest h.2
      constructor
      · simp only [relocateItems, objectsItems, hn.objects, hrest.objects]
      · intro first
        simp only [relocateItems, occurrencesItems, hn.objects, hn.occurrences,
          hrest.occurrences, List.map_append]
      · intro first
        simp only [relocateItems, outermostItems, hn.objects, hn.outermost, hrest.outermost]

/-- The values of fields keep their places. -/
theorem staysFields (path : String) :
    (fields : List (String × Node)) → pathsPlainFields fields = true → StaysFields path fields
  | [], _ => ⟨rfl, fun _ => rfl, fun _ => rfl⟩
  | (_, n) :: rest, h => by
      rw [pathsPlainFields, Bool.and_eq_true] at h
      have hn := stays path n h.1
      have hrest := staysFields path rest h.2
      constructor
      · simp only [relocateFields, objectsFields, hn.objects, hrest.objects]
      · intro first
        simp only [relocateFields, occurrencesFields, hn.objects, hn.occurrences,
          hrest.occurrences, List.map_append]
      · intro first
        simp only [relocateFields, outermostFields, hn.objects, hn.outermost, hrest.outermost]

end

/-! ## What lies inside -/

mutual

/-- In what lies inside a node whose paths are primitives they are primitives too. -/
theorem pathsPlain_of_mem_occurrences : (n : Node) → n.pathsPlain = true → ∀ first,
    ∀ o ∈ n.occurrences first, o.record.pathsPlain = true
  | .primitive value, _ => by simp [occurrences]
  | .list items, h => pathsPlain_of_mem_occurrencesItems items h
  | .map entries, h => pathsPlain_of_mem_occurrencesFields entries h
  | .object kind className configurable configured recorded, h => by
      intro first o ho
      have hfields := h
      rw [pathsPlain, Bool.and_eq_true, Bool.and_eq_true] at hfields
      rw [occurrences, List.mem_cons, List.mem_append] at ho
      rcases ho with rfl | ho | ho
      · exact h
      · exact pathsPlain_of_mem_occurrencesFields configured hfields.2.1 _ o ho
      · exact pathsPlain_of_mem_occurrencesFields recorded hfields.2.2 _ o ho

/-- Paths are plain in every object of a list. -/
theorem pathsPlain_of_mem_occurrencesItems : (items : List Node) →
    pathsPlainItems items = true → ∀ first, ∀ o ∈ occurrencesItems first items,
      o.record.pathsPlain = true
  | [], _ => by simp [occurrencesItems]
  | n :: rest, h => by
      intro first o ho
      rw [pathsPlainItems, Bool.and_eq_true] at h
      rcases List.mem_append.1 ho with ho | ho
      · exact pathsPlain_of_mem_occurrences n h.1 _ o ho
      · exact pathsPlain_of_mem_occurrencesItems rest h.2 _ o ho

/-- Paths are plain in every object of fields. -/
theorem pathsPlain_of_mem_occurrencesFields : (fields : List (String × Node)) →
    pathsPlainFields fields = true → ∀ first, ∀ o ∈ occurrencesFields first fields,
      o.record.pathsPlain = true
  | [], _ => by simp [occurrencesFields]
  | (_, n) :: rest, h => by
      intro first o ho
      rw [pathsPlainFields, Bool.and_eq_true] at h
      rcases List.mem_append.1 ho with ho | ho
      · exact pathsPlain_of_mem_occurrences n h.1 _ o ho
      · exact pathsPlain_of_mem_occurrencesFields rest h.2 _ o ho

end

end Node

namespace Occurrence

variable {path : String} {o i : Occurrence} {key : String}

/-- Paths are plain in every object inside one with plain paths. -/
theorem pathsPlain_of_mem_inside (hplain : o.record.pathsPlain = true)
    (hi : i ∈ Node.occurrencesFields o.first o.record.fields) : i.record.pathsPlain = true :=
  Node.pathsPlain_of_mem_occurrencesFields _ (Record.pathsPlain_iff.1 hplain).2 _ i hi

/-- What is found in relocated fields is what was found before, relocated. -/
theorem locate_relocateFields {fields : Fields} (hplain : Node.pathsPlainFields fields = true)
    (key : String) (first : Nat) :
    locate key first (Node.relocateFields path fields) =
      (locate key first fields).map fun found => (found.1.relocate path, found.2) := by
  induction fields generalizing first with
  | nil => rfl
  | cons e rest ih =>
      rcases e with ⟨k, n⟩
      rw [Node.pathsPlainFields, Bool.and_eq_true] at hplain
      rw [Node.relocateFields, locate, locate, (Node.stays path n hplain.1).objects, ih hplain.2]
      split <;> rfl

/-- Under another key than that of paths a relocated record holds what it held before,
relocated. -/
theorem locate_relocate {r : Record} (hplain : r.pathsPlain = true) (hkey : key ≠ "path")
    (first : Nat) : locate key first (r.relocate path).fields =
      (locate key first r.fields).map fun found => (found.1.relocate path, found.2) := by
  rw [(Record.repathed_fields hplain path).locate_eq hkey,
    locate_relocateFields (Record.pathsPlain_iff.1 hplain).2]

/-- An inner object of a relocated object is the inner object, relocated. -/
theorem inner?_relocate (hplain : o.record.pathsPlain = true) (hkey : key ≠ "path") :
    (o.relocate path).inner? key = (o.inner? key).map (Occurrence.relocate path) := by
  rw [inner?, inner?, relocate, locate_relocate hplain hkey]
  cases locate key o.first o.record.fields with
  | none => rfl
  | some found =>
      simp only [Option.map_some, Option.bind_some, Node.record?_relocate, Option.map_map]
      rfl

/-- What stands directly inside a relocated object has the numbers that it had before. -/
theorem direct_relocate (hplain : o.record.pathsPlain = true) :
    (o.relocate path).direct = o.direct := by
  rw [direct, direct, relocate, (Record.repathed_fields hplain path).outermostFields_eq,
    (Node.staysFields path _ (Record.pathsPlain_iff.1 hplain).2).outermost]

end Occurrence

/-! ## Fields under other keys -/

/-- Under another key than that of paths nothing changes when a path is set. -/
theorem Fields.lookup_setPath {key : String} (hkey : key ≠ "path") (path : String)
    (fields : Fields) : Keyed.lookup key (setPath path fields) = Keyed.lookup key fields := by
  rw [setPath]
  split
  · clear *- hkey
    induction fields with
    | nil => rfl
    | cons e rest ih =>
        rw [List.map_cons, Keyed.lookup, Keyed.lookup, ih]
        by_cases hpath : e.1 = "path"
        · have hother : e.1 ≠ key := fun h => hkey (h.symm.trans hpath)
          rw [if_pos hpath, if_neg hother, if_neg hother]
        · rw [if_neg hpath]
  · rw [Keyed.lookup_append, Keyed.lookup, if_neg hkey.symm, Keyed.lookup, Option.or_none]

/-- What stands under a key is relocated. -/
theorem Node.lookup_relocateFields (path key : String) (fields : Fields) :
    Keyed.lookup key (relocateFields path fields) =
      (Keyed.lookup key fields).map (relocate path) := by
  induction fields with
  | nil => rfl
  | cons e rest ih =>
      rw [relocateFields, Keyed.lookup, Keyed.lookup, ih]
      split <;> rfl

namespace Record

variable {path : String} {r : Record} {key : String}

/-- A field with another key is relocated. -/
theorem field?_relocate (hkey : key ≠ "path") :
    (r.relocate path).field? key = (r.field? key).map (Node.relocate path) := by
  have hconfigured : Keyed.lookup key (r.relocate path).configured =
      Keyed.lookup key (Node.relocateFields path r.configured) := by
    rw [relocate]
    split
    · exact Fields.lookup_setPath hkey path _
    · rfl
  have hrecorded : (r.relocate path).recorded = Node.relocateFields path r.recorded := rfl
  rw [field?, field?, fields, fields, Keyed.lookup_append, Keyed.lookup_append, hconfigured,
    hrecorded, Node.lookup_relocateFields, Node.lookup_relocateFields, Option.map_or]

/-- A primitive with another key stays. -/
theorem primitive?_relocate (hkey : key ≠ "path") :
    (r.relocate path).primitive? key = r.primitive? key := by
  rw [primitive?, primitive?, field?_relocate hkey, Option.bind_map]
  congr 1
  funext n
  exact Node.primitive?_relocate path n

/-- An object under another key is relocated. -/
theorem record?_relocate (hkey : key ≠ "path") :
    (r.relocate path).record? key = (r.record? key).map (relocate path) := by
  rw [record?, record?, field?_relocate hkey, Option.bind_map, Option.map_bind]
  congr 1
  funext n
  exact Node.record?_relocate path n

/-- A number under another key stays. -/
theorem long?_relocate (hkey : key ≠ "path") : (r.relocate path).long? key = r.long? key := by
  rw [long?, long?, primitive?_relocate hkey]

/-- The objects of a relocated record are the relocated objects. -/
theorem occurrences_relocate (hplain : r.pathsPlain = true) (path : String) :
    (r.relocate path).occurrences = r.occurrences.map (Occurrence.relocate path) := by
  rw [occurrences, occurrences, (repathed_fields hplain path).occurrencesFields_eq,
    (Node.staysFields path _ (pathsPlain_iff.1 hplain).2).occurrences]

/-- Paths are plain in every object of a record with plain paths. -/
theorem pathsPlain_of_mem_occurrences (hplain : r.pathsPlain = true) {o : Occurrence}
    (ho : o ∈ r.occurrences) : o.record.pathsPlain = true :=
  Node.pathsPlain_of_mem_occurrencesFields _ (pathsPlain_iff.1 hplain).2 _ o ho

end Record

/-! ## The dependency order -/

namespace DependencyOrder

variable {path : String} {order : DependencyOrder}

/-- The dependency order stays. -/
theorem ofRecord_relocate {root : Record} (hplain : root.pathsPlain = true) (path : String) :
    ofRecord (root.relocate path) = (ofRecord root).relocate path := by
  have hdirect : (root.occurrences.map (Occurrence.relocate path)).map Occurrence.direct =
      root.occurrences.map Occurrence.direct := by
    rw [List.map_map]
    apply List.map_congr_left
    intro o ho
    exact Occurrence.direct_relocate (Record.pathsPlain_of_mem_occurrences hplain ho)
  rw [ofRecord, ofRecord, relocate, Record.occurrences_relocate hplain, hdirect]

/-- At each position of the order stands the relocated object. -/
theorem get?_relocate (p : Nat) :
    (order.relocate path).get? p = (order.get? p).map (Occurrence.relocate path) := by
  rw [get?, get?, relocate]
  cases order.sequence[p]? with
  | none => rfl
  | some n => exact List.getElem?_map

/-- The rows hold the relocated objects at the positions of the objects. -/
theorem rows_relocate :
    (order.relocate path).rows = order.rows.map fun row => (row.1, row.2.relocate path) := by
  have hsize : (order.relocate path).size = order.size := rfl
  rw [rows, rows, hsize, List.map_filterMap]
  congr 1
  funext p
  rw [get?_relocate, Option.map_map, Option.map_map]
  rfl

end DependencyOrder
end Retrace
