import Retrace.CommandLine.Arguments
import Retrace.Path
import Retrace.Trainer

/-!
# Requests

A command line asks for the version or for one of five commands.  Options that stand before the
command only say how much is logged; every command knows them as well.  What is not given has a
standard value, and a path is not empty.

Main results:

- Theorem `request_version`: the version is answered whatever follows.
-/

namespace Retrace
namespace CommandLine

/-- What the training command is asked to do. -/
structure TrainingRequest where
  data : OsPath
  output : OsPath
  format : String
  settings : Settings
  seed : UInt64
  kernel : String
  gamma : Float
  degree : UInt32
  coef0 : Float
  /-- train on a part of the data -/
  proportion : Option Float
  splitSeed : UInt64
  /-- leave out features that are stored fewer times -/
  threshold : Option UInt64
deriving DecidableEq, Repr

/-- What the evaluating command is asked to do. -/
structure EvaluationRequest where
  model : OsPath
  data : OsPath
  format : String
  detailed : Bool
deriving DecidableEq, Repr

/-- What the reproducing command is asked to do. -/
structure ReproductionRequest where
  model : OsPath
  /-- read the data from here -/
  dataPath : Option OsPath
  output : Option OsPath
  showDifferences : Bool
  /-- do not compare with the recorded model -/
  unchecked : Bool
deriving DecidableEq, Repr

/-- What a command line asks for. -/
inductive Request where
  | version
  | train (request : TrainingRequest)
  | evaluate (request : EvaluationRequest)
  | describe (model : OsPath) (withRecord : Bool)
  | reproduce (request : ReproductionRequest)
  | difference (left right : OsPath)
deriving DecidableEq, Repr

/-! ## Options -/

/-- The options about logging. -/
def loggingOptions : List OptionSpec :=
  [⟨"verbose", some 'v', .flag⟩, ⟨"debug", some 'd', .flag⟩]

/-- The options before the command. -/
def leadingOptions : List OptionSpec :=
  loggingOptions ++ [⟨"version", some 'V', .last⟩]

/-- An option with a value and without a letter. -/
def longValue (name : String) : OptionSpec :=
  ⟨name, none, .value⟩

/-- The options of the training command. -/
def trainingOptions : List OptionSpec :=
  loggingOptions ++
    [longValue "data", ⟨"output", some 'o', .value⟩, ⟨"format", some 'f', .value⟩,
      ⟨"c", some 'C', .value⟩, ⟨"epsilon", some 'e', .value⟩, longValue "max-iterations",
      longValue "max-passes", longValue "cache-size", longValue "seed",
      ⟨"kernel", some 'k', .value⟩, longValue "gamma", longValue "degree", longValue "coef0",
      longValue "train-proportion", longValue "split-seed", longValue "min-cardinality"]

/-- The options of the evaluating command. -/
def evaluationOptions : List OptionSpec :=
  loggingOptions ++
    [⟨"model", some 'm', .value⟩, longValue "data", ⟨"format", some 'f', .value⟩,
      ⟨"detailed", none, .flag⟩]

/-- The options of the describing command. -/
def descriptionOptions : List OptionSpec :=
  loggingOptions ++ [⟨"model", some 'm', .value⟩, ⟨"provenance", none, .flag⟩]

/-- The options of the reproducing command. -/
def reproductionOptions : List OptionSpec :=
  loggingOptions ++
    [⟨"model", some 'm', .value⟩, longValue "data-path", ⟨"output", some 'o', .value⟩,
      ⟨"diff", none, .flag⟩, ⟨"no-validate", none, .flag⟩]

/-! ## Values -/

/-- Read a degree: a signed number in the range of degrees. -/
def readDegree (s : List Char) : Except Decimal.NumberFault UInt32 :=
  match Decimal.readInt64 s with
  | .error fault => .error fault
  | .ok n =>
      if n < 0 then .error .tooSmall
      else if Int64.ofNat UInt32.size ≤ n then .error .tooLarge
      else .ok n.toUInt64.toUInt32

namespace Given

/-- Whether an option was given. -/
def has (g : Given) (name : String) : Bool :=
  Keyed.hasKey name g.options

/-- The value that was given for an option. -/
def value? (g : Given) (name : String) : Option String :=
  Keyed.lookup name g.options

/-- A value as a reader takes it, if it was given. -/
def read? {β : Type} (g : Given) (name : String)
    (reader : List Char → Except Decimal.NumberFault β) : Except Stop (Option β) :=
  match g.value? name with
  | none => .ok none
  | some text =>
      match reader text.toList with
      | .ok value => .ok (some value)
      | .error _ => .error .misuse

/-- A value as a reader takes it, or what stands for it. -/
def read {β : Type} (g : Given) (name : String)
    (reader : List Char → Except Decimal.NumberFault β) (standard : β) : Except Stop β :=
  (g.read? name reader).map fun value => value.getD standard

/-- A path, which is not empty, if it was given. -/
def path? (g : Given) (name : String) : Except Stop (Option OsPath) :=
  if g.value? name = some "" then .error .misuse else .ok ((g.value? name).map .ofText)

/-- A path that must be given. -/
def path (g : Given) (name : String) : Except Stop OsPath :=
  match g.path? name with
  | .ok (some path) => .ok path
  | _ => .error .misuse

end Given

/-! ## Commands -/

/-- Read the arguments of a command that takes no operands. -/
def scanOptions (specs : List OptionSpec) (arguments : List String) : Except Stop Given :=
  match scan specs .empty none arguments with
  | .error stop => .error stop
  | .ok g => if g.operands.isEmpty then .ok g else .error .misuse

/-- Read the settings of a trainer. -/
def readSettings (g : Given) : Except Stop Settings := do
  let s := Settings.standard
  return {
    penalty := ← g.read "c" Decimal.readFloat s.penalty
    tolerance := ← g.read "epsilon" Decimal.readFloat s.tolerance
    maxSweeps := ← g.read "max-iterations" Decimal.readUInt64 s.maxSweeps
    maxPasses := ← g.read "max-passes" Decimal.readUInt64 s.maxPasses
    cacheSize := ← g.read "cache-size" Decimal.readUInt64 s.cacheSize }

/-- Read what the training command is asked to do. -/
def readTraining (arguments : List String) : Except Stop Request := do
  let g ← scanOptions trainingOptions arguments
  return .train {
    data := ← g.path "data"
    output := ← g.path "output"
    format := (g.value? "format").getD "auto"
    settings := ← readSettings g
    seed := ← g.read "seed" Decimal.readUInt64 Trainer.standard.seed
    kernel := (g.value? "kernel").getD "linear"
    gamma := ← g.read "gamma" Decimal.readFloat 1
    degree := ← g.read "degree" readDegree 3
    coef0 := ← g.read "coef0" Decimal.readFloat 0
    proportion := ← g.read? "train-proportion" Decimal.readFloat
    splitSeed := ← g.read "split-seed" Decimal.readUInt64 1
    threshold := ← g.read? "min-cardinality" Decimal.readUInt64 }

/-- Read what the evaluating command is asked to do. -/
def readEvaluation (arguments : List String) : Except Stop Request := do
  let g ← scanOptions evaluationOptions arguments
  return .evaluate {
    model := ← g.path "model"
    data := ← g.path "data"
    format := (g.value? "format").getD "auto"
    detailed := g.has "detailed" }

/-- Read what the describing command is asked to do. -/
def readDescription (arguments : List String) : Except Stop Request := do
  let g ← scanOptions descriptionOptions arguments
  return .describe (← g.path "model") (g.has "provenance")

/-- Read what the reproducing command is asked to do. -/
def readReproduction (arguments : List String) : Except Stop Request := do
  let g ← scanOptions reproductionOptions arguments
  return .reproduce {
    model := ← g.path "model"
    dataPath := ← g.path? "data-path"
    output := ← g.path? "output"
    showDifferences := g.has "diff"
    unchecked := g.has "no-validate" }

/-- Read what the comparing command is asked to do. -/
def readDifference (arguments : List String) : Except Stop Request := do
  let g ← scan loggingOptions .empty none arguments
  match g.operands with
  | [left, right] =>
      if left.isEmpty || right.isEmpty then .error .misuse
      else return .difference (.ofText left) (.ofText right)
  | _ => .error .misuse

/-- Read the arguments of the command with a name. -/
def readCommand (name : String) (arguments : List String) : Except Stop Request :=
  if name = "train" then readTraining arguments
  else if name = "evaluate" then readEvaluation arguments
  else if name = "info" then readDescription arguments
  else if name = "reproduce" then readReproduction arguments
  else if name = "diff" then readDifference arguments
  else .error .misuse

/-- Read a command line after the options in front of the command that were given so far. -/
def readFrom (g : Given) : List String → Except Stop Request
  | [] => .error .misuse
  | argument :: rest =>
      match shape argument with
      | .operand => readCommand argument rest
      | option =>
          match takeOption leadingOptions g option with
          | .error stop => .error stop
          | .ok (g, _) => readFrom g rest

/-- What a command line asks for; nothing if it is misused. -/
def Request.read? (arguments : List String) : Option Request :=
  match readFrom .empty arguments with
  | .ok request => some request
  | .error (.reached _) => some .version
  | .error .misuse => none

/-! ## Laws -/

/-- The version is answered whatever follows. -/
theorem request_version (rest : List String) :
    Request.read? ("--version" :: rest) = some .version ∧
      Request.read? ("-V" :: rest) = some .version := by
  constructor <;> rfl

end CommandLine
end Retrace
