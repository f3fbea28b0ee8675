import Retrace.Decimal.Layout
import Retrace.Keyed

/-!
# Records

A record says how one object was made: its kind, its class, the fields it was configured with and
the fields that were observed of it.  Fields hold nodes, and a node is a primitive, a list, a map
or the record of an inner object, so the record of a model is a tree.  Field lists keep the order in
which they were recorded, and a key may occur in them more than once; the entries of a map are in
key order.

Main results:

- Theorem `objects_lt_of_inner`: an object found in a field holds fewer objects than the record.
-/

namespace Retrace

/-- What a record describes. -/
inductive RecordKind where
  | model
  | trainer
  | dataset
  | dataSource
  | splitDataSource
  | component
deriving DecidableEq, Repr

/-- The name of a kind. -/
def RecordKind.name : RecordKind → String
  | .model => "model"
  | .trainer => "trainer"
  | .dataset => "dataset"
  | .dataSource => "data-source"
  | .splitDataSource => "split-data-source"
  | .component => "component"

/-- The kinds. -/
def RecordKind.all : List RecordKind :=
  [.model, .trainer, .dataset, .dataSource, .splitDataSource, .component]

/-- The kind with a name. -/
def RecordKind.ofName? (name : String) : Option RecordKind :=
  RecordKind.all.find? fun k => k.name = name

/-- A recorded scalar. -/
inductive Primitive where
  | text (value : String)
  | long (value : Int64)
  | double (value : Float)
  | boolean (value : Bool)
deriving DecidableEq, Repr

/-- The text of a primitive; a double keeps its point. -/
def Primitive.render : Primitive → String
  | .text s => s
  | .long n => String.ofList (Decimal.intDigits n.toInt)
  | .double x => Decimal.recorded.render x
  | .boolean b => if b then "true" else "false"

/-- A node of a record tree. -/
inductive Node where
  | primitive (value : Primitive)
  | list (items : List Node)
  | map (entries : List (String × Node))
  | object (kind : RecordKind) (className : String) (configurable : Bool)
      (configured recorded : List (String × Node))
deriving Repr

/-- The fields of a record by key, in recorded order. -/
abbrev Fields := List (String × Node)

/-- How one object was made. -/
structure Record where
  kind : RecordKind
  className : String
  configurable : Bool
  configured : Fields
  recorded : Fields
deriving Repr

namespace Node

/-- The name of a node's kind. -/
def kindName : Node → String
  | .primitive _ => "primitive"
  | .list _ => "list"
  | .map _ => "map"
  | .object kind .. => kind.name

/-- The primitive that a node is. -/
def primitive? : Node → Option Primitive
  | .primitive value => some value
  | _ => none

/-- The record that a node is. -/
def record? : Node → Option Record
  | .object kind className configurable configured recorded =>
      some ⟨kind, className, configurable, configured, recorded⟩
  | _ => none

/-- A node with a text. -/
def text (s : String) : Node :=
  .primitive (.text s)

/-- A node with a long. -/
def long (n : Int64) : Node :=
  .primitive (.long n)

/-- A node with a double. -/
def double (x : Float) : Node :=
  .primitive (.double x)

/-- A node with a truth value. -/
def boolean (b : Bool) : Node :=
  .primitive (.boolean b)

mutual

/-- The number of objects in a node, itself included. -/
def objects : Node → Nat
  | .primitive _ => 0
  | .list items => objectsItems items
  | .map entries => objectsFields entries
  | .object _ _ _ configured recorded =>
      objectsFields configured + objectsFields recorded + 1

/-- The number of objects in the items of a list. -/
def objectsItems : List Node → Nat
  | [] => 0
  | n :: rest => n.objects + objectsItems rest

/-- The number of objects in fields. -/
def objectsFields : List (String × Node) → Nat
  | [] => 0
  | (_, n) :: rest => n.objects + objectsFields rest

end

end Node

namespace Record

/-- The record as a node. -/
def node (r : Record) : Node :=
  .object r.kind r.className r.configurable r.configured r.recorded

/-- A record of an object that can be rebuilt from its configured fields. -/
def rebuildable (kind : RecordKind) (className : String) (configured recorded : Fields) : Record :=
  ⟨kind, className, true, configured, recorded⟩

/-- A record that only says what an object was. -/
def observed (kind : RecordKind) (className : String) (recorded : Fields) : Record :=
  ⟨kind, className, false, [], recorded⟩

/-- The configured fields and then the recorded ones. -/
def fields (r : Record) : Fields :=
  r.configured ++ r.recorded

/-- The first field with a key. -/
def field? (r : Record) (key : String) : Option Node :=
  Keyed.lookup key r.fields

/-- The class name and the fields, each under its key. -/
def children (r : Record) : Fields :=
  ("class-name", .text r.className) :: r.fields

/-- The primitive under a key. -/
def primitive? (r : Record) (key : String) : Option Primitive :=
  (r.field? key).bind Node.primitive?

/-- The long under a key. -/
def long? (r : Record) (key : String) : Option Int64 :=
  match r.primitive? key with
  | some (.long n) => some n
  | _ => none

/-- The double under a key. -/
def double? (r : Record) (key : String) : Option Float :=
  match r.primitive? key with
  | some (.double x) => some x
  | _ => none

/-- The truth value under a key. -/
def boolean? (r : Record) (key : String) : Option Bool :=
  match r.primitive? key with
  | some (.boolean b) => some b
  | _ => none

/-- The text under a key. -/
def text? (r : Record) (key : String) : Option String :=
  match r.primitive? key with
  | some (.text s) => some s
  | _ => none

/-- The inner record under a key. -/
def record? (r : Record) (key : String) : Option Record :=
  (r.field? key).bind Node.record?

/-- The number of objects inside a record. -/
def objects (r : Record) : Nat :=
  Node.objectsFields r.fields

end Record

/-! ## Places in a tree

The objects of a tree are numbered in the order of a walk that visits an object before what is
inside it, fields in recorded order.  An occurrence is an object at its place: two occurrences of
equal objects differ in their number. -/

/-- An object at its place in a tree. -/
structure Occurrence where
  record : Record
  /-- the number that the first object inside has or would have; the root's first one is 0 -/
  first : Nat

namespace Occurrence

/-- The root of a tree; it has no number. -/
def root (r : Record) : Occurrence :=
  ⟨r, 0⟩

/-- The number of an object; the root has none. -/
def number? (o : Occurrence) : Option Nat :=
  match o.first with
  | 0 => none
  | n + 1 => some n

/-- The first field with a key, with the number that the first object in it has or would have. -/
def locate (key : String) (first : Nat) : Fields → Option (Node × Nat)
  | [] => none
  | (k, n) :: rest => if k = key then some (n, first) else locate key (first + n.objects) rest

/-- The inner object under a key. -/
def inner? (o : Occurrence) (key : String) : Option Occurrence :=
  (locate key o.first o.record.fields).bind fun found =>
    found.1.record?.map fun r => ⟨r, found.2 + 1⟩

end Occurrence

/-! ## Laws -/

namespace Node

@[simp] theorem objectsFields_append (a b : Fields) :
    objectsFields (a ++ b) = objectsFields a + objectsFields b := by
  induction a with
  | nil => simp [objectsFields]
  | cons e a ih => simp [objectsFields, ih, Nat.add_assoc]

/-- A node that is a record holds that record's objects and one more. -/
theorem objects_of_record? {n : Node} {r : Record} (h : n.record? = some r) :
    n.objects = r.objects + 1 := by
  cases n with
  | object kind className configurable configured recorded =>
      simp only [record?, Option.some.injEq] at h
      subst h
      simp [objects, Record.objects, Record.fields]
  | _ => simp [record?] at h

@[simp] theorem record?_node (r : Record) : r.node.record? = some r := rfl

end Node

namespace Occurrence

theorem objects_le_of_locate {key : String} {first : Nat} {fields : Fields} {found : Node × Nat}
    (h : locate key first fields = some found) : found.1.objects ≤ Node.objectsFields fields := by
  induction fields generalizing first with
  | nil => simp [locate] at h
  | cons e rest ih =>
      obtain ⟨k, n⟩ := e
      unfold locate at h
      split at h
      · simp only [Option.some.injEq] at h
        subst h
        simp [Node.objectsFields]
      · have := ih h
        simp only [Node.objectsFields]
        omega

/-- Locating a field finds the node that looking it up finds. -/
theorem locate_eq_lookup (key : String) (first : Nat) (fields : Fields) :
    (locate key first fields).map Prod.fst = Keyed.lookup key fields := by
  induction fields generalizing first with
  | nil => rfl
  | cons e rest ih =>
      obtain ⟨k, n⟩ := e
      simp only [locate, Keyed.lookup]
      split
      · rfl
      · exact ih _

/-- An object found in a field holds fewer objects than the record. -/
theorem objects_lt_of_inner {o i : Occurrence} {key : String} (h : o.inner? key = some i) :
    i.record.objects < o.record.objects := by
  simp only [inner?, Option.bind_eq_some_iff, Option.map_eq_some_iff] at h
  obtain ⟨found, hfound, r, hr, rfl⟩ := h
  have h1 := objects_le_of_locate hfound
  have h2 := Node.objects_of_record? hr
  simp only [Record.objects] at h2 ⊢
  omega

/-- The inner object under a key is the record that the field holds. -/
theorem record_inner? (o : Occurrence) (key : String) :
    (o.inner? key).map Occurrence.record = o.record.record? key := by
  simp only [inner?, Record.record?, Record.field?]
  rw [← locate_eq_lookup key o.first]
  cases locate key o.first o.record.fields with
  | none => rfl
  | some found => simp [Option.map_map, Function.comp_def]

end Occurrence
end Retrace
