import Retrace.Configuration
import Retrace.Record.Ordering
import Retrace.Text.Blank

/-!
# Extraction of configurations

The configurable objects of a record tree become flat configurations, one for each object in
dependency order, named by class and position.  Inner objects are referred to by name.  What a
configuration cannot hold is refused with the path to it: objects that are not configurable, lists
that mix primitives with other nodes, and maps with anything but primitives; so is an object with a
blank class name.

Main results:

- Theorem `references_configurable`: a property that refers to one component comes from a
  configurable object.
-/

namespace Retrace

/-- Why a node cannot become part of a configuration, or a record is no record of a model. -/
inductive ExtractionObstacle where
  | blankClassName
  | notConfigurable (kind : RecordKind) (className : String)
  | mixedList
  | mapHolds (kindName : String)
  | notOrdered (className : String)
  /-- the root of a tree is not the record of a model -/
  | rootKind (kind : RecordKind)
  /-- an inner record has another kind than it must have -/
  | wrongKind (expected found : RecordKind)
  /-- a record of a model lacks an inner record -/
  | missing
deriving DecidableEq, Repr

/-- An obstacle and the path to it. -/
structure ExtractionFault where
  path : String
  obstacle : ExtractionObstacle
deriving DecidableEq, Repr

/-- The sentence about an obstacle. -/
def ExtractionObstacle.message : ExtractionObstacle → String
  | .blankClassName => "object has an empty class name"
  | .notConfigurable kind className =>
      "configuration references " ++ kind.name ++ " '" ++ className ++ "' which is not configurable"
  | .mixedList => "lists must hold only primitives or only objects"
  | .mapHolds kindName => "maps may only hold primitives, found a " ++ kindName
  | .notOrdered className => "object '" ++ className ++ "' is not part of the ordering"
  | .rootKind kind => "root provenance is a " ++ kind.name ++ ", expected a model"
  | .wrongKind expected found => "expected a " ++ expected.name ++ ", found a " ++ found.name
  | .missing => "missing from model provenance"

namespace Extraction

/-- The name of an object that a configuration refers to. -/
def reference (ordering : DependencyOrder) (path : String) (o : Occurrence) :
    Except ExtractionFault String :=
  if o.record.configurable then
    match ordering.nameOf? o with
    | some name => .ok name
    | none => .error ⟨path, .notOrdered o.record.className⟩
  else
    .error ⟨path, .notConfigurable o.record.kind o.record.className⟩

/-- The items of a list with the number that the first object in each has or would have. -/
def numberItems (first : Nat) : List Node → List (Node × Nat)
  | [] => []
  | n :: rest => (n, first) :: numberItems (first + n.objects) rest

/-- The fields with the number that the first object in each has or would have. -/
def numberFields (first : Nat) : Fields → List (String × Node × Nat)
  | [] => []
  | (key, n) :: rest => (key, n, first) :: numberFields (first + n.objects) rest

/-- References to the objects of a list, from an index on. -/
def references (ordering : DependencyOrder) (path : String) (index : Nat) :
    List Occurrence → Except ExtractionFault (List String)
  | [] => .ok []
  | o :: rest =>
      match reference ordering (path ++ "[" ++ toString index ++ "]") o with
      | .error fault => .error fault
      | .ok name => (references ordering path (index + 1) rest).map fun names => name :: names

/-- The texts of the primitives of a map. -/
def mapTexts (path : String) :
    List (String × Node) → Except ExtractionFault (List (String × String))
  | [] => .ok []
  | (key, n) :: rest =>
      match n.primitive? with
      | some value => (mapTexts path rest).map fun texts => (key, value.render) :: texts
      | none => .error ⟨path ++ "." ++ key, .mapHolds n.kindName⟩

/-- The property that a configured field becomes. -/
def property (ordering : DependencyOrder) (path : String) (n : Node) (first : Nat) :
    Except ExtractionFault Property :=
  match n with
  | .primitive value => .ok (.value value.render)
  | .map entries => (mapTexts path entries).map .map
  | .list items =>
      let texts := items.filterMap fun i => i.primitive?.map Primitive.render
      let objects := (numberItems first items).filterMap fun i =>
        i.1.record?.map fun r => (⟨r, i.2 + 1⟩ : Occurrence)
      if texts.length = items.length then .ok (.list texts)
      else if objects.length = items.length then
        (references ordering path 0 objects).map .componentList
      else .error ⟨path, .mixedList⟩
  | .object kind className configurable configured recorded =>
      (reference ordering path
        ⟨⟨kind, className, configurable, configured, recorded⟩, first + 1⟩).map .component

/-- Set the properties that configured fields become; the last field of a key stays. -/
def configure (ordering : DependencyOrder) (c : Configuration) :
    List (String × Node × Nat) → Except ExtractionFault Configuration
  | [] => .ok c
  | (key, n, first) :: rest =>
      match property ordering (c.name ++ "." ++ key) n first with
      | .error fault => .error fault
      | .ok value => configure ordering (c.set key value) rest

/-- The configuration of an object; nothing for one that is not configurable. -/
def configuration (ordering : DependencyOrder) (position : Nat) (o : Occurrence) :
    Except ExtractionFault (Option Configuration) :=
  let name := componentName o.record.className position
  if (Text.trim o.record.className.toList).isEmpty then .error ⟨name, .blankClassName⟩
  else if o.record.configurable then
    (configure ordering ⟨name, o.record.className, []⟩
      (numberFields o.first o.record.configured)).map some
  else .ok none

/-- The configurations of objects with their positions. -/
def configurations (ordering : DependencyOrder) :
    List (Nat × Occurrence) → Except ExtractionFault (List Configuration)
  | [] => .ok []
  | (position, o) :: rest =>
      match configuration ordering position o with
      | .error fault => .error fault
      | .ok found => (configurations ordering rest).map fun configs => found.toList ++ configs

end Extraction

/-- The configurations of the objects below the root of a tree. -/
def Record.extract (root : Record) : Except ExtractionFault (List Configuration) :=
  let ordering := DependencyOrder.ofRecord root
  Extraction.configurations ordering ordering.rows

/-! ## Laws -/

namespace Extraction

/-- A property that refers to one component comes from a configurable object. -/
theorem references_configurable {ordering : DependencyOrder} {path name : String} {n : Node}
    {first : Nat} (h : property ordering path n first = .ok (.component name)) :
    ∃ r, n.record? = some r ∧ r.configurable = true := by
  cases n with
  | primitive value => simp [property] at h
  | map entries =>
      simp only [property] at h
      cases hm : mapTexts path entries <;> simp [hm, Except.map] at h
  | list items =>
      simp only [property] at h
      split at h
      · simp at h
      · split at h
        · revert h
          generalize references ordering path 0 _ = found
          cases found <;> simp [Except.map]
        · simp at h
  | object kind className configurable configured recorded =>
      refine ⟨⟨kind, className, configurable, configured, recorded⟩, rfl, ?_⟩
      simp only [property, reference] at h
      split at h
      · assumption
      · simp [Except.map] at h

end Extraction
end Retrace
