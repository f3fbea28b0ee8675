import Retrace.Configuration
import Retrace.Data.Table
import Retrace.Directory
import Retrace.Kernel
import Retrace.Record.Difference
import Retrace.Record.Extraction

/-!
# Errors

What can go wrong, by cause.  Each cause has one sentence.  A failure inside the building of a
component, inside the recovery of a trainer or of a dataset, or inside a model file keeps its own
cause and is reported within the larger one.
-/

namespace Retrace

/-- What a component is. -/
inductive ComponentKind where
  | trainer
  | dataSource
  | kernel
deriving DecidableEq, Repr

/-- The name of a kind of component. -/
def ComponentKind.name : ComponentKind → String
  | .trainer => "trainer"
  | .dataSource => "data source"
  | .kernel => "kernel"

/-- Why a component cannot be built or registered. -/
inductive ComponentFault where
  | lacks (key : String)
  | unknownKernel (className : String)
  | property (key : String) (fault : PropertyFault)
  | unknownClass (className : String)
  | built (className : String) (registered found : ComponentKind)
  | registeredTwice
  | notRegistered
  | cycle (chain : List String)
  | wrongKind (expected found : ComponentKind)
deriving DecidableEq, Repr

/-- The sentence about a component. -/
def ComponentFault.message : ComponentFault → String
  | .lacks key => "missing property '" ++ key ++ "'"
  | .unknownKernel className => "unknown kernel class '" ++ className ++ "'"
  | .property key fault => "property '" ++ key ++ "': " ++ fault.message
  | .unknownClass className => "unknown class '" ++ className ++ "'"
  | .built className registered found =>
      "class '" ++ className ++ "' is registered as a " ++ registered.name ++ " but built a " ++
        found.name
  | .registeredTwice => "a configuration with this name is already registered"
  | .notRegistered => "no configuration registered under this name"
  | .cycle chain => "reference cycle: " ++ " -> ".intercalate chain
  | .wrongKind expected found => "expected a " ++ expected.name ++ ", found a " ++ found.name

/-- Why a trainer cannot be recovered. -/
inductive TrainerFault where
  | notConfigured (className : String)
  | noCount (name : String)
  | negativeCount (name : String) (count : Int64)
  | notRegistered (className : String)
  | noComponent (className : String)
deriving DecidableEq, Repr

/-- The sentence about a trainer. -/
def TrainerFault.message : TrainerFault → String
  | .notConfigured className =>
      "trainer '" ++ className ++ "' was recorded without its configuration"
  | .noCount name => "trainer " ++ name ++ " has no usable train-invocation-count"
  | .negativeCount name count =>
      "trainer " ++ name ++ " records a negative train-invocation-count (" ++
        toString count.toInt ++ ")"
  | .notRegistered className => "no constructor registered for trainer class '" ++ className ++ "'"
  | .noComponent className => "no configured component of class '" ++ className ++ "'"

/-- Why a dataset cannot be recovered. -/
inductive RecoveryFault where
  | notDataset (kind : RecordKind) (className : String)
  | noSource (className : String)
  | backedBy (className : String) (kind : RecordKind) (sourceClass : String)
  | noWrapper (className : String)
  | noRewrapper (className : String)
  | noThreshold (className : String)
  | splitField (className key : String)
  | notConfigurable (className : String)
  | notRegistered (className : String)
  | notInTree (className : String)
  | notDataSource (name : String)
  | notSource (kind : RecordKind) (className : String)
deriving DecidableEq, Repr

/-- The sentence about a dataset. -/
def RecoveryFault.message : RecoveryFault → String
  | .notDataset kind className =>
      "expected a dataset provenance, found " ++ kind.name ++ " (" ++ className ++ ")"
  | .noSource className => "dataset " ++ className ++ " has no source-provenance"
  | .backedBy className kind sourceClass =>
      "dataset " ++ className ++ " is backed by a " ++ kind.name ++ " (" ++ sourceClass ++
        "), not a data source"
  | .noWrapper className => "no dataset wrapper registered for '" ++ className ++ "'"
  | .noRewrapper className => "no dataset rewrapper registered for '" ++ className ++ "'"
  | .noThreshold className => className ++ " has no usable min-cardinality"
  | .splitField className key =>
      "split source '" ++ className ++ "' has no usable '" ++ key ++ "'"
  | .notConfigurable className =>
      "data source '" ++ className ++ "' is not configurable and cannot be replayed"
  | .notRegistered className => "no data source registered for class '" ++ className ++ "'"
  | .notInTree className => "data source '" ++ className ++ "' is not part of the provenance"
  | .notDataSource name => "component " ++ name ++ " is not a data source"
  | .notSource kind className =>
      "expected a data source, found a " ++ kind.name ++ " (" ++ className ++ ")"

/-- Why a model file cannot be used. -/
inductive FormatFault where
  /-- the text is no model -/
  | unreadable
  | version (found : Nat)
deriving DecidableEq, Repr

/-- The sentence about a model file. -/
def FormatFault.message : FormatFault → String
  | .unreadable => "not a model file"
  | .version found =>
      "unsupported model format version " ++ toString found ++ " (expected 1)"

/-- How a reproduced model fails to agree with the reference model. -/
inductive Disagreement where
  | noModel
  | featureCount (expected found : Nat)
  | feature (index : Nat)
  | labels
deriving DecidableEq, Repr

/-- The sentence about a disagreement. -/
def Disagreement.message : Disagreement → String
  | .noModel => "missing-model"
  | .featureCount m n =>
      "feature-map-size (original " ++ toString m ++ ", reproduced " ++ toString n ++ ")"
  | .feature index => "feature-identity (index " ++ toString index ++ ")"
  | .labels => "output-domain"

/-- What went wrong. -/
inductive Error where
  | parameter (fault : ParameterFault)
  | oneClass
  | noneKept (threshold : UInt64)
  | label (found : Float)
  | emptyDataset
  | file (fault : FileFault)
  | line (format : DataFormat) (number : Nat) (fault : LineFault)
  | format (fault : FormatFault)
  /-- a model file holds something that is wrong in itself -/
  | formatCause (cause : Error)
  | extraction (fault : ExtractionFault)
  | trainer (fault : TrainerFault)
  /-- a trainer cannot be recovered because of something else -/
  | trainerCause (cause : Error)
  | recovery (fault : RecoveryFault)
  /-- a dataset cannot be recovered because of something else -/
  | recoveryCause (cause : Error)
  | component (name : String) (fault : ComponentFault)
  /-- a component cannot be built because of something else -/
  | componentCause (name : String) (cause : Error)
  | disagreement (fault : Disagreement)
  | difference (fault : Difference.Fault)
  /-- an operation was used against its contract -/
  | breach (breach : Breach)
deriving DecidableEq, Repr

namespace Error

/-- The sentence about an error. -/
def message : Error → String
  | .parameter fault => "Invalid parameter: " ++ fault.message
  | .oneClass => "Invalid dataset: Training data must contain both +1 and -1 labels"
  | .noneKept threshold =>
      "Invalid dataset: No samples keep a feature seen at least " ++ toString threshold ++ " times"
  | .label x => "Invalid label: expected -1 or +1, got " ++ Decimal.plain.render x
  | .emptyDataset => "Empty dataset"
  | .file fault => "IO error: " ++ fault.message
  | .line .csv number fault => "Parse error: line " ++ toString number ++ ": " ++ fault.message
  | .line .libsvm number fault =>
      "Parse error: Error parsing line " ++ toString number ++ ": " ++ fault.message
  | .format fault => "Serialization error: " ++ fault.message
  | .formatCause cause => "Serialization error: " ++ cause.message
  | .extraction fault =>
      "Extraction error at '" ++ fault.path ++ "': " ++ fault.obstacle.message
  | .trainer fault => "Trainer recovery failed: " ++ fault.message
  | .trainerCause cause => "Trainer recovery failed: " ++ cause.message
  | .recovery fault => "Dataset recovery failed: " ++ fault.message
  | .recoveryCause cause => "Dataset recovery failed: " ++ cause.message
  | .component name fault =>
      "Reconstruction of component '" ++ name ++ "' failed: " ++ fault.message
  | .componentCause name cause =>
      "Reconstruction of component '" ++ name ++ "' failed: " ++ cause.message
  | .disagreement fault => "Reproduced model failed validation: " ++ fault.message
  | .difference fault => "Unsupported diff at '" ++ fault.path ++ "': " ++ fault.obstacle.message
  | .breach _ => "operation used against its contract"

/-- The component that an error is about, if it is about one. -/
def component? : Error → Option String
  | .component name _ => some name
  | .componentCause name _ => some name
  | _ => none

/-- Whether a contract was broken. -/
def isBreach : Error → Bool
  | .breach _ => true
  | _ => false

/-- The error of samples that cannot be learned from. -/
def ofLabels : LabelFault Float → Error
  | .noSamples => .emptyDataset
  | .label x => .label x
  | .oneClass => .oneClass

/-- The error of a data file that cannot be read. -/
def ofTable : TableFault → Error
  | .noSamples => .emptyDataset
  | .notUtf8 => .file .notUtf8
  | .line kind number fault => .line kind number fault
  | .breach b => .breach b

/-- The error of a property of a component. -/
def ofProperty (name key : String) (fault : PropertyFault) : Error :=
  .component name (.property key fault)

/-- The error about a component that fails while it is built: what is about a component stays. -/
def within (name : String) (e : Error) : Error :=
  match e with
  | .component .. => e
  | .componentCause .. => e
  | .breach b => .breach b
  | e => .componentCause name e

/-- An error within a component is about some component, unless a contract was broken. -/
theorem component?_within (name : String) (e : Error) :
    (e.within name).component? = none → ∃ b, e = .breach b := by
  cases e <;> simp [within, component?]

end Error

/-- A computation that can go wrong. -/
abbrev Result := Except Error

end Retrace
