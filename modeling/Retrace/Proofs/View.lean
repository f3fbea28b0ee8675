import Retrace.Proofs.Keyed
import Retrace.Record.Difference

/-!
# Views of nodes

What a comparison of record trees sees of a node: the text of a primitive, the items of a list, the
entries of a map by key, and the kind of an object with its class name and its fields by key.  Of
entries with one key the last one counts, so the order of fields is seen only where a key is
repeated.

Main results:

- Theorem `entries_view_eq_iff`: entries look the same exactly when every key has the same view on
  both sides.
-/

namespace Retrace

/-- What a comparison sees of a node. -/
inductive View where
  | text (text : String)
  | list (items : List View)
  | map (entries : List (String × View))
  | object (kind : RecordKind) (entries : List (String × View))

namespace Node

mutual

/-- The view of a node. -/
def view : Node → View
  | .primitive value => .text value.render
  | .list items => .list (viewItems items)
  | .map entries => .map (Keyed.ofList (viewFields entries))
  | .object kind className _ configured recorded =>
      .object kind (Keyed.ofList
        (("class-name", .text className) :: (viewFields configured ++ viewFields recorded)))

/-- The views of the items of a list. -/
def viewItems : List Node → List View
  | [] => []
  | n :: rest => n.view :: viewItems rest

/-- The views of fields. -/
def viewFields : List (String × Node) → List (String × View)
  | [] => []
  | (key, n) :: rest => (key, n.view) :: viewFields rest

end

/-- The items of a list are seen one by one. -/
theorem viewItems_eq_map (items : List Node) : viewItems items = items.map view := by
  induction items with
  | nil => rfl
  | cons n rest ih => rw [viewItems, List.map_cons, ih]

/-- The values of fields are seen one by one. -/
theorem viewFields_eq_map (fields : Fields) :
    viewFields fields = fields.map fun e => (e.1, e.2.view) := by
  induction fields with
  | nil => rfl
  | cons e rest ih => rw [viewFields, List.map_cons, ih]

/-- Entries look the same exactly when every key has the same view on both sides. -/
theorem entries_view_eq_iff (es fs : Fields) :
    Keyed.ofList (viewFields es) = Keyed.ofList (viewFields fs) ↔
      ∀ key, (Keyed.lookupLast key es).map view = (Keyed.lookupLast key fs).map view := by
  rw [Keyed.ofList_eq_iff]
  simp only [viewFields_eq_map, Keyed.lookupLast_map fun _ => view]

/-- An object is seen by its kind and its children. -/
theorem view_object (kind : RecordKind) (className : String) (configurable : Bool)
    (configured recorded : Fields) :
    (Node.object kind className configurable configured recorded).view =
      .object kind (Keyed.ofList (viewFields
        (Record.children ⟨kind, className, configurable, configured, recorded⟩))) := by
  simp [view, Record.children, Record.fields, viewFields_eq_map, text, Primitive.render]

end Node
end Retrace
