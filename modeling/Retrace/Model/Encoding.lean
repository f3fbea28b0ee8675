import Retrace.Data.Encoding
import Retrace.Model

/-!
# Models as JSON

A model is an object with its parts in a fixed order, its record last.  The record of a model is
checked while it is read: one that lacks its dataset or its trainer is refused with its own fault,
unless something before it in the text cannot be read.
-/

namespace Retrace

/-- Why a text is not what it should be. -/
inductive DecodeFault where
  | unreadable
  /-- a record is readable but is not that of a model -/
  | refused (fault : ExtractionFault)
deriving DecidableEq, Repr

/-- The error of a text that is not what it should be. -/
def DecodeFault.error : DecodeFault → Error
  | .unreadable => .format .unreadable
  | .refused fault => .formatCause (.extraction fault)

namespace Json

/-- The members of an object or the items of a list under names, as far as there are any. -/
def membersInOrder (names : List String) : Json → List (List Char × Json)
  | .object members => members
  | .list items => (names.map fun n => escape n.toList).zip items
  | _ => []

/-- The refusal of a member, if all members before it can be read. -/
def refusalAmong (names : List String) (readable : String → Json → Bool)
    (refusal : String → Json → Option ExtractionFault) (seen : List String) :
    List (List Char × Json) → Option ExtractionFault
  | [] => none
  | (body, j) :: rest =>
      match bodyText? body with
      | none => none
      | some key =>
          if !names.contains key then
            if j.whole then refusalAmong names readable refusal seen rest else none
          else if seen.contains key then none
          else
            match refusal key j with
            | some fault => some fault
            | none =>
                if readable key j then refusalAmong names readable refusal (key :: seen) rest
                else none

end Json

/-! ## Records of models -/

/-- Why the record that can be read is not that of a model. -/
def ModelRecord.refusal (depth : Nat) (j : Json) : Option ExtractionFault :=
  match Record.read depth j with
  | none => none
  | some r =>
      match ModelRecord.ofRecord r with
      | .error fault => some fault
      | .ok _ => none

/-- Read the record of a model. -/
def ModelRecord.read (depth : Nat) (j : Json) : Option ModelRecord :=
  match Record.read depth j with
  | none => none
  | some r => (ModelRecord.ofRecord r).toOption

/-! ## Models -/

namespace Model

/-- The names of the members of a model. -/
def memberNames : List String :=
  ["kernel", "support_vectors", "coefficients", "bias", "support_indices", "feature_map",
    "label_info", "provenance"]

/-- A model as JSON. -/
def encode (m : Model) : Json :=
  .record
    [("kernel", m.kernel.encode),
      ("support_vectors", .list (m.supportVectors.map SparseVector.encode)),
      ("coefficients", .list (m.coefficients.map .double)),
      ("bias", .double m.bias),
      ("support_indices", .list (m.supportIndices.map .nat)),
      ("feature_map", m.features.encode),
      ("label_info", m.labels.encode),
      ("provenance", m.record.record.encode)]

/-- Read a list within the depth that is left. -/
def readList {β : Type} (depth : Nat) (reader : Nat → Json → Option β) (j : Json) :
    Option (List β) :=
  match depth with
  | 0 => none
  | depth + 1 => j.list?.bind (Json.each? (reader depth))

/-- Read support vectors. -/
def readVectors (depth : Nat) : Json → Option (List (SparseVector Float)) :=
  readList depth SparseVector.decode

/-- Read coefficients. -/
def readCoefficients (depth : Nat) : Json → Option (List Float) :=
  readList depth fun _ => Json.double?

/-- Read the numbers of support vectors. -/
def readIndices (depth : Nat) : Json → Option (List Nat) :=
  readList depth fun _ => Json.nat? (UInt64.size - 1)

/-- Read a model that may open `depth` more lists and objects. -/
def read : Nat → Json → Option Model
  | 0, _ => none
  | depth + 1, j =>
      match j.fields? memberNames with
      | some [kernel, vectors, coefficients, bias, indices, features, labels, record] => do
          let kernel ← Kernel.decode depth kernel
          let vectors ← readVectors depth vectors
          let coefficients ← readCoefficients depth coefficients
          let bias ← bias.double?
          let indices ← readIndices depth indices
          let features ← FeatureMap.decode depth features
          let labels ← LabelCounts.decode depth labels
          let record ← ModelRecord.read depth record
          return ⟨kernel, vectors, coefficients, bias, indices, features, labels, record⟩
      | _ => none

/-- Whether the member with a name can be read. -/
def readsMember (depth : Nat) (name : String) (j : Json) : Bool :=
  if name = "kernel" then (Kernel.decode depth j).isSome
  else if name = "support_vectors" then (readVectors depth j).isSome
  else if name = "coefficients" then (readCoefficients depth j).isSome
  else if name = "bias" then j.double?.isSome
  else if name = "support_indices" then (readIndices depth j).isSome
  else if name = "feature_map" then (FeatureMap.decode depth j).isSome
  else if name = "label_info" then (LabelCounts.decode depth j).isSome
  else (ModelRecord.read depth j).isSome

/-- Why the record in a model is refused, if all before it can be read. -/
def refusal : Nat → Json → Option ExtractionFault
  | 0, _ => none
  | depth + 1, j =>
      Json.refusalAmong memberNames (readsMember depth)
        (fun name j => if name = "provenance" then ModelRecord.refusal depth j else none) []
        (j.membersInOrder memberNames)

end Model
end Retrace
