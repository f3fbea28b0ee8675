import Retrace.Configuration
import Retrace.Confusion
import Retrace.FeatureMap
import Retrace.Json.Printing
import Retrace.Kernel
import Retrace.LabelCounts
import Retrace.Record.Encoding

/-!
# Data as JSON

Vectors, samples, feature maps, label counts, confusion counts, kernels and configurations as JSON.
A kernel carries its type as one of its members; a property is an object with one member that says
what it is.
Doubles that are not finite are written as null and are not read back.
-/

namespace Retrace

/-! ## Vectors and samples -/

/-- A vector as JSON. -/
def SparseVector.encode (v : SparseVector Float) : Json :=
  .record [("indices", .list (v.indices.map .nat)), ("values", .list (v.values.map .double))]

/-- Read a vector; its indices and values need not match. -/
def SparseVector.decode : Nat → Json → Option (SparseVector Float)
  | _ + 2, j =>
      match j.fields? ["indices", "values"] with
      | some [indices, values] =>
          match indices.list?.bind (Json.each? (Json.nat? (UInt64.size - 1))),
            values.list?.bind (Json.each? Json.double?) with
          | some indices, some values => some ⟨indices, values⟩
          | _, _ => none
      | _ => none
  | _, _ => none

/-- A sample as JSON. -/
def Sample.encode (s : Sample Float) : Json :=
  .record [("features", s.features.encode), ("label", .double s.label)]

/-- Read a sample. -/
def Sample.decode : Nat → Json → Option (Sample Float)
  | depth + 1, j =>
      match j.fields? ["features", "label"] with
      | some [features, label] =>
          match SparseVector.decode depth features, label.double? with
          | some features, some label => some ⟨features, label⟩
          | _, _ => none
      | _ => none
  | _, _ => none

/-! ## Feature maps and label counts -/

/-- A feature as JSON. -/
def FeatureInfo.encode (f : FeatureInfo) : Json :=
  .record [("name", .string f.name), ("id", .nat f.id), ("count", .nat f.count),
    ("min", .double f.min), ("max", .double f.max)]

/-- Read a feature. -/
def FeatureInfo.decode : Nat → Json → Option FeatureInfo
  | _ + 1, j =>
      match j.fields? ["name", "id", "count", "min", "max"] with
      | some [name, id, count, min, max] =>
          match name.string?, id.nat? (UInt64.size - 1), count.nat? (UInt64.size - 1), min.double?,
            max.double? with
          | some name, some id, some count, some min, some max => some ⟨name, id, count, min, max⟩
          | _, _, _, _, _ => none
      | _ => none
  | _, _ => none

/-- A feature map as JSON. -/
def FeatureMap.encode (m : FeatureMap) : Json :=
  .record [("features", .list (m.features.map FeatureInfo.encode))]

/-- Read a feature map. -/
def FeatureMap.decode : Nat → Json → Option FeatureMap
  | depth + 2, j =>
      match j.fields? ["features"] with
      | some [features] => (features.list?.bind (Json.each? (FeatureInfo.decode depth))).map .mk
      | _ => none
  | _, _ => none

/-- Label counts as JSON. -/
def LabelCounts.encode (l : LabelCounts) : Json :=
  .record [("counts", .record (l.counts.map fun e => (e.1, .nat e.2)))]

/-- Read label counts. -/
def LabelCounts.decode : Nat → Json → Option LabelCounts
  | _ + 2, j =>
      match j.fields? ["counts"] with
      | some [counts] => (counts.map? (Json.nat? (UInt64.size - 1))).map .mk
      | _ => none
  | _, _ => none

/-! ## Confusion counts -/

/-- Confusion counts as JSON. -/
def Confusion.encode (c : Confusion) : Json :=
  .record [("true_positives", .nat c.truePositives.toNat),
    ("true_negatives", .nat c.trueNegatives.toNat),
    ("false_positives", .nat c.falsePositives.toNat),
    ("false_negatives", .nat c.falseNegatives.toNat)]

/-! ## Kernels -/

/-- A kernel as JSON. -/
def Kernel.encode : Kernel → Json
  | .linear => .record [("type", .string "linear")]
  | .rbf gamma => .record [("type", .string "rbf"), ("gamma", .double gamma)]
  | .polynomial degree gamma coef0 =>
      .record [("type", .string "polynomial"), ("degree", .nat degree.toNat),
        ("gamma", .double gamma), ("coef0", .double coef0)]

/-- Read the parameters of a kernel of a type from an object without the type, or from a list. -/
def Kernel.decodeParameters (type : String) (j : Json) : Option Kernel :=
  if type = "linear" then
    match j with
    | .list (_ :: _) => none
    | _ => some .linear
  else if type = "rbf" then
    match j.fields? ["gamma"] with
    | some [gamma] => gamma.double?.map .rbf
    | _ => none
  else if type = "polynomial" then
    match j.fields? ["degree", "gamma", "coef0"] with
    | some [degree, gamma, coef0] =>
        match degree.smallWord?, gamma.double?, coef0.double? with
        | some degree, some gamma, some coef0 => some (.polynomial degree gamma coef0)
        | _, _, _ => none
    | _ => none
  else none

/-- Read a kernel: an object with a type, or a list that starts with it.  Every member must be
readable, also one that is passed over. -/
def Kernel.decode (depth : Nat) (j : Json) : Option Kernel :=
  if !j.meaningful depth then none
  else
    match j with
    | .object members =>
        match (Json.only? "type" members).bind Json.string? with
        | some type =>
            decodeParameters type
              (.object (members.filter fun m => Json.bodyText? m.1 != some "type"))
        | none => none
    | .list (first :: rest) => first.string?.bind fun type => decodeParameters type (.list rest)
    | _ => none

/-! ## Configurations -/

/-- A property as JSON. -/
def Property.encode : Property → Json
  | .value s => .record [("value", .string s)]
  | .list items => .record [("list", .list (items.map .string))]
  | .map entries => .record [("map", .record (entries.map fun e => (e.1, .string e.2)))]
  | .component name => .record [("component", .string name)]
  | .componentList names => .record [("component-list", .list (names.map .string))]

/-- Read a property. -/
def Property.decode : Nat → Json → Option Property
  | depth + 1, j =>
      match j.variant? with
      | none => none
      | some (key, body) =>
          if key = "value" then body.string?.map .value
          else if key = "component" then body.string?.map .component
          else if depth = 0 then none
          else if key = "list" then (body.list?.bind (Json.each? Json.string?)).map .list
          else if key = "map" then (body.map? Json.string?).map .map
          else if key = "component-list" then
            (body.list?.bind (Json.each? Json.string?)).map .componentList
          else none
  | _, _ => none

/-- A configuration as JSON. -/
def Configuration.encode (c : Configuration) : Json :=
  .record [("name", .string c.name), ("class_name", .string c.className),
    ("properties", .record (c.properties.map fun e => (e.1, e.2.encode)))]

/-- Read a configuration. -/
def Configuration.decode : Nat → Json → Option Configuration
  | depth + 2, j =>
      match j.fields? ["name", "class_name", "properties"] with
      | some [name, className, properties] =>
          match name.string?, className.string?, properties.map? (Property.decode depth) with
          | some name, some className, some properties => some ⟨name, className, properties⟩
          | _, _, _ => none
      | _ => none
  | _, _ => none

end Retrace
