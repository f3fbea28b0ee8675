import Retrace.Json.Reading
import Retrace.Record.Basic

/-!
# Records as JSON

Every node is an object with one member whose key says what the node is.  Fields are pairs, so their
order and repeated keys are kept.

Main results:

- Theorem `Primitive.read_encode`: a text or a truth value is read back.
-/

namespace Retrace

/-- A primitive as JSON. -/
def Primitive.encode : Primitive → Json
  | .text s => .record [("string", .string s)]
  | .long n => .record [("long", .int n.toInt)]
  | .double x => .record [("double", .double x)]
  | .boolean b => .record [("boolean", .boolean b)]

namespace Node

mutual

/-- A node as JSON. -/
def encode : Node → Json
  | .primitive value => .record [("primitive", value.encode)]
  | .list items => .record [("list", .list (encodeItems items))]
  | .map entries => .record [("map", .object (encodeEntries entries))]
  | .object kind className configurable configured recorded =>
      .record [("object", .record
        [("kind", .string kind.name),
          ("class-name", .string className),
          ("configurable", .boolean configurable),
          ("configured", .list (encodeFields configured)),
          ("instance", .list (encodeFields recorded))])]

/-- The items of a list as JSON. -/
def encodeItems : List Node → List Json
  | [] => []
  | n :: rest => n.encode :: encodeItems rest

/-- The entries of a map as members. -/
def encodeEntries : List (String × Node) → List (List Char × Json)
  | [] => []
  | (key, n) :: rest => (Json.escape key.toList, n.encode) :: encodeEntries rest

/-- Fields as pairs. -/
def encodeFields : List (String × Node) → List Json
  | [] => []
  | (key, n) :: rest => .list [.string key, n.encode] :: encodeFields rest

end

end Node

/-- A record as JSON. -/
def Record.encode (r : Record) : Json :=
  .record
    [("kind", .string r.kind.name),
      ("class-name", .string r.className),
      ("configurable", .boolean r.configurable),
      ("configured", .list (Node.encodeFields r.configured)),
      ("instance", .list (Node.encodeFields r.recorded))]

/-! ## Reading -/

/-- The key and the value of an object with one member. -/
def Json.variant? : Json → Option (String × Json)
  | .object [(key, j)] => (bodyText? key).map fun key => (key, j)
  | _ => none

/-- Read a primitive that may open `depth` more objects. -/
def Primitive.read (depth : Nat) (j : Json) : Option Primitive :=
  if depth = 0 then none
  else
    match j.variant? with
    | none => none
    | some (key, value) =>
        if key = "string" then value.string?.map .text
        else if key = "long" then value.long?.map .long
        else if key = "double" then value.double?.map .double
        else if key = "boolean" then value.boolean?.map .boolean
        else none

/-- Read a kind; it may stand as the key of an object that holds null. -/
def RecordKind.read (depth : Nat) (j : Json) : Option RecordKind :=
  match j with
  | .text body => (Json.bodyText? body).bind RecordKind.ofName?
  | j =>
      match j.variant? with
      | some (key, .null) => if depth = 0 then none else RecordKind.ofName? key
      | _ => none

mutual

/-- Read a node that may open `depth` more lists and objects. -/
def Node.read : Nat → Json → Option Node
  | 0, _ => none
  | depth + 1, j =>
      match j.variant? with
      | none => none
      | some (key, value) =>
          if key = "primitive" then (Primitive.read depth value).map .primitive
          else if key = "list" then (Node.readItems depth value).map .list
          else if key = "map" then (Node.readEntries depth value).map .map
          else if key = "object" then (Record.read depth value).map Record.node
          else none

/-- Read a list of nodes. -/
def Node.readItems : Nat → Json → Option (List Node)
  | 0, _ => none
  | depth + 1, j => j.list?.bind (Json.each? (Node.read depth))

/-- Read an object of nodes. -/
def Node.readEntries : Nat → Json → Option (List (String × Node))
  | 0, _ => none
  | depth + 1, j => j.map? (Node.read depth)

/-- Read one field. -/
def Node.readField : Nat → Json → Option (String × Node)
  | 0, _ => none
  | depth + 1, j =>
      match j with
      | .list [key, value] =>
          match key.string?, Node.read depth value with
          | some key, some n => some (key, n)
          | _, _ => none
      | _ => none

/-- Read fields. -/
def Node.readFields : Nat → Json → Option Fields
  | 0, _ => none
  | depth + 1, j => j.list?.bind (Json.each? (Node.readField depth))

/-- Read a record that may open `depth` more lists and objects. -/
def Record.read : Nat → Json → Option Record
  | 0, _ => none
  | depth + 1, j =>
      match j.fields? ["kind", "class-name", "configurable", "configured", "instance"] with
      | some [kind, className, configurable, configured, recorded] =>
          match RecordKind.read depth kind, className.string?, configurable.boolean?,
            Node.readFields depth configured, Node.readFields depth recorded with
          | some kind, some className, some configurable, some configured, some recorded =>
              some ⟨kind, className, configurable, configured, recorded⟩
          | _, _, _, _, _ => none
      | _ => none

end

/-! ## Laws -/

theorem Node.encode_node (r : Record) : r.node.encode = .record [("object", r.encode)] := rfl

/-- A text that was written is read back. -/
theorem Json.string?_string (s : String) : (Json.string s).string? = some s := by
  simp [string, string?, bodyText?, unescape_escape]

theorem Json.variant?_record (key : String) (j : Json) :
    (Json.record [(key, j)]).variant? = some (key, j) := by
  simp [record, variant?, bodyText?, unescape_escape]

/-- A text or a truth value is read back if there is room for an object. -/
theorem Primitive.read_encode (depth : Nat) {p : Primitive}
    (h : (∃ s, p = .text s) ∨ ∃ b, p = .boolean b) : read (depth + 1) p.encode = some p := by
  rcases h with ⟨s, rfl⟩ | ⟨b, rfl⟩
  · simp [read, encode, Json.variant?_record, Json.string?_string]
  · simp [read, encode, Json.variant?_record, Json.boolean?]

end Retrace
