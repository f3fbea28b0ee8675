import Retrace.Decimal.Layout
import Retrace.Sample

/-!
# Feature maps

A feature map lists the features of a dataset by their number, each with its name, the number of
stored entries that mention it, and the least and greatest of their values.  Entries whose index
names no feature are not counted.

Main results:

- Theorem `size_observe`: a feature map has one feature for every name.
- Theorem `get_observe`: the statistics of a feature are those of its values.
-/

namespace Retrace

/-- What was observed of one feature. -/
structure FeatureInfo where
  name : String
  id : Nat
  count : Nat
  min : Float
  max : Float
deriving DecidableEq, Repr

/-- The features of a dataset in the order of their numbers. -/
structure FeatureMap where
  features : List FeatureInfo
deriving DecidableEq, Repr

namespace FeatureInfo

/-- The statistics of a feature with these values; without values the extremes are zero. -/
def ofValues (name : String) (id : Nat) : List Float → FeatureInfo
  | [] => ⟨name, id, 0, 0, 0⟩
  | v :: rest =>
      ⟨name, id, rest.length + 1, rest.foldl Scalar.smaller v, rest.foldl Scalar.larger v⟩

/-- The text of a feature. -/
def render (f : FeatureInfo) : String :=
  "RealFeature(name=" ++ f.name ++ ",id=" ++ toString f.id ++ ",count=" ++ toString f.count ++
    ",max=" ++ Decimal.recorded.render f.max ++ ",min=" ++ Decimal.recorded.render f.min ++ ")"

/-- Whether two features agree, their doubles as numbers. -/
def agrees (f g : FeatureInfo) : Bool :=
  f.name == g.name && f.id == g.id && f.count == g.count && f.min == g.min && f.max == g.max

end FeatureInfo

namespace FeatureMap

/-- The stored entries, sample by sample. -/
def storedEntries (samples : List (Sample Float)) : List (Nat × Float) :=
  samples.flatMap fun s => s.features.entries

/-- The values that stored entries have for a feature. -/
def valuesOf (stored : List (Nat × Float)) (id : Nat) : List Float :=
  stored.filterMap fun e => if e.1 = id then some e.2 else none

/-- The feature map of samples whose features have these names. -/
def observe (names : List String) (samples : List (Sample Float)) : FeatureMap :=
  let stored := storedEntries samples
  ⟨names.mapIdx fun id name => .ofValues name id (valuesOf stored id)⟩

/-- The number of features. -/
def size (m : FeatureMap) : Nat :=
  m.features.length

/-- The feature with a number. -/
def get? (m : FeatureMap) (id : Nat) : Option FeatureInfo :=
  m.features[id]?

/-- Whether two feature maps agree, their doubles as numbers. -/
def agrees (m n : FeatureMap) : Bool :=
  m.features.length == n.features.length &&
    (m.features.zip n.features).all fun p => p.1.agrees p.2

/-! ## Laws -/

/-- A feature map has one feature for every name. -/
@[simp] theorem size_observe (names : List String) (samples : List (Sample Float)) :
    (observe names samples).size = names.length := by
  simp [observe, size]

/-- The statistics of a feature are those of its values. -/
theorem get_observe (names : List String) (samples : List (Sample Float)) (id : Nat) :
    (observe names samples).get? id =
      names[id]?.map fun name => .ofValues name id (valuesOf (storedEntries samples) id) := by
  simp [observe, get?]

end FeatureMap
end Retrace
