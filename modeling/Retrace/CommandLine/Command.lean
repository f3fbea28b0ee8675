import Retrace.CommandLine.Request
import Retrace.Model.File
import Retrace.Reproduction

/-!
# Commands

A run of a command reads and writes files at any paths that the system knows, and writes lines.
What it wrote before an error stays; the error itself ends the run with its sentence in the log.

Main results:

- Theorem `code_run`: a run ends with code zero or one, or as a broken contract does.
-/

namespace Retrace
namespace CommandLine

/-- A line that a run writes. -/
inductive Line where
  | text (line : String)
  /-- how long the training took -/
  | duration
  /-- a warning in the log -/
  | warning (line : String)
  /-- an error in the log -/
  | failure (line : String)
deriving DecidableEq, Repr

/-- The files and what was written so far. -/
structure Session where
  directory : Directory
  lines : List Line

/-- A step of a run. -/
abbrev Run := ExceptT Error (StateM Session)

/-- How a run ended. -/
structure Outcome where
  code : Nat
  lines : List Line
  directory : Directory

namespace Run

/-- Write a line. -/
def put (line : Line) : Run Unit :=
  modify fun s => { s with lines := s.lines ++ [line] }

/-- Write a line of text. -/
def say (line : String) : Run Unit :=
  put (.text line)

/-- Write a warning. -/
def warn (line : String) : Run Unit :=
  put (.warning line)

/-- End with a result. -/
def ofResult {β : Type} : Result β → Run β
  | .ok value => pure value
  | .error e => throw e

/-- Load the model file at a path. -/
def load (path : OsPath) : Run ModelFile := do
  ofResult (ModelFile.load (← get).directory path)

/-- Write a model to a path. -/
def save (occasion : Occasion) (path : OsPath) (m : Model) : Run Unit := do
  let directory ← ofResult (ModelFile.save (← get).directory path m occasion)
  modify fun s => { s with directory := directory }

/-! ## Data files -/

/-- The format of a data file by its extension. -/
def guessFormat (path : OsPath) : Run DataFormat := do
  match path.extension?.map OsPath.text? with
  | none =>
      warn "No file extension, assuming LibSVM format"
      pure .libsvm
  | some extension =>
      if extension = some "csv" then pure .csv
      else if extension = some "libsvm" ∨ extension = some "svm" then pure .libsvm
      else
        warn "Unknown file extension, assuming LibSVM format"
        pure .libsvm

/-- The format that a request names, or the one that the extension suggests. -/
def chooseFormat (path : OsPath) (format : String) : Run DataFormat :=
  if format = "auto" then guessFormat path
  else if format = "libsvm" then pure .libsvm
  else if format = "csv" then pure .csv
  else throw (.parameter (.format format))

/-- The source of a data file. -/
def openSource (path : OsPath) (format : String) : Run DataSource := do
  let format ← chooseFormat path format
  ofResult (DataSource.ofFile format (← get).directory path)

/-! ## Lines -/

/-- A part of one in percent. -/
def percent (ratio : Float) : String :=
  Decimal.fixed 2 (ratio * 100) ++ "%"

/-- Write what a model is. -/
def summarize (m : Model) : Run Unit := do
  say ("Model: " ++ m.record.className)
  say ("  Kernel: " ++ m.kernel.className)
  say ("  Support vectors: " ++ toString m.supportVectors.length)
  say ("  Bias: " ++ Decimal.fixed 6 m.bias)
  say ("  Features: " ++ toString m.features.size)
  say ("  Labels: " ++ m.labels.render)

/-- Write the size and the bias of a model. -/
def sketch (m : Model) : Run Unit := do
  say ("Support vectors: " ++ toString m.supportVectors.length)
  say ("Bias: " ++ Decimal.fixed 6 m.bias)

/-! ## Commands -/

/-- Cut a source into the part to train on and the rest, if a proportion is given. -/
def divide (source : DataSource) (seed : UInt64) (proportion : Option Float) :
    Result (DataSource × Option DataSource) :=
  match proportion with
  | none => .ok (source, none)
  | some p => do
      let train ← source.split p seed .train
      let test ← source.split p seed .test
      return (train, some test)

/-- The dataset of a source, without rare features if a threshold is given. -/
def gather (source : DataSource) (threshold : Option UInt64) : Result Dataset := do
  let d ← Dataset.ofSource source
  match threshold with
  | none => return d
  | some n => d.atLeast n

/-- Count what a model gets right on all samples of a source. -/
def examine (m : Model) (source : DataSource) : Result Confusion := do
  let d ← Dataset.ofSource source
  m.evaluate d.samples

/-- Write how much of the samples that were held back a model gets right. -/
def examineHeldOut (m : Model) (test : DataSource) : Run Unit := do
  if test.samples.isEmpty then warn "Test split is empty, skipping held-out evaluation"
  else
    let counts ← ofResult (examine m test)
    say ("Held-out accuracy: " ++ percent counts.accuracy)

/-- Train a model and write it to a file. -/
def train (occasion : Occasion) (q : TrainingRequest) : Run Unit := do
  let source ← openSource q.data q.format
  let kernel ← ofResult ((Kernel.ofName q.kernel q.gamma q.degree q.coef0).mapError .parameter)
  let trainer : Trainer := ⟨q.settings, kernel, q.seed, 0⟩
  let (part, test) ← ofResult (divide source q.splitSeed q.proportion)
  let d ← ofResult (gather part q.threshold)
  let m ← ofResult (trainer.train occasion d).1
  save occasion q.output m
  say "Training completed successfully!"
  put .duration
  sketch m
  say ("Model saved to: " ++ q.output.quote)
  match test with
  | none => pure ()
  | some test => examineHeldOut m test

/-- Write what a model gets right on a data file. -/
def evaluate (q : EvaluationRequest) : Run Unit := do
  let file ← load q.model
  let source ← openSource q.data q.format
  let counts ← ofResult (examine file.model source)
  say "=== Model Evaluation ==="
  summarize file.model
  say "\nTest Results:"
  say ("  Accuracy: " ++ percent counts.accuracy)
  if q.detailed then
    say "\nDetailed Metrics:"
    say counts.render

/-- Write what is in a model file. -/
def describe (path : OsPath) (withRecord : Bool) : Run Unit := do
  let file ← load path
  say ("Format version: " ++ toString file.formatVersion)
  say ("Library version: " ++ file.libraryVersion)
  say ("Saved at: " ++ file.savedAt.render)
  summarize file.model
  if withRecord then
    say "\nProvenance:"
    say file.model.record.record.encode.renderPretty

/-- Take a step of a reproduction. -/
def advance {β : Type} (r : Reproduction) (step : Reproduction.Step β) :
    Run (β × Reproduction) :=
  match step.run r with
  | (.ok value, r) => pure (value, r)
  | (.error e, _) => throw e

/-- Point a reproduction to the data at a path, if one is given. -/
def redirect (r : Reproduction) (path : Option OsPath) : Run Reproduction := do
  match path with
  | none => pure r
  | some path =>
      let (count, r) ← advance r (Reproduction.relocate path.lossy)
      if count = 0 then
        warn "No recorded data source reads from a path; --data-path ignored"
      pure r

/-- Train a model anew from its record. -/
def reproduce (occasion : Occasion) (q : ReproductionRequest) : Run Unit := do
  let file ← load q.model
  let prepared ← ofResult (Reproduction.ofModel file.model Catalog.standard)
  let prepared ← redirect prepared q.dataPath
  let directory := (← get).directory
  let (m, finished) ← advance prepared
    (if q.unchecked then Reproduction.fromRecord directory occasion
    else Reproduction.fromModel directory occasion)
  say ("Reproduction completed (" ++ finished.stage.name ++ ")")
  sketch m
  match q.output with
  | none => pure ()
  | some path =>
      save occasion path m
      say ("Reproduced model saved to: " ++ path.quote)
  if q.showDifferences then
    say "\nProvenance diff:"
    say (← ofResult (finished.compare m))

/-- Write the differences between the records of two models. -/
def difference (left right : OsPath) : Run Unit := do
  let a ← load left
  let b ← load right
  if left.lossy = right.lossy then
    warn ("Both diff sides are labelled '" ++ left.lossy ++ "', using the default labels")
  let labels := SideLabels.choose left.lossy right.lossy
  say (← ofResult ((Difference.compareModels labels a.model.record b.model.record).mapError
    .difference))

/-- Write name and version of the program. -/
def version : Run Unit :=
  say ("rsvm-repro " ++ libraryVersion)

end Run

/-! ## Answers -/

/-- Do what is asked for. -/
def Request.perform (occasion : Occasion) : Request → Run Unit
  | .version => Run.version
  | .train request => Run.train occasion request
  | .evaluate request => Run.evaluate request
  | .describe model withRecord => Run.describe model withRecord
  | .reproduce request => Run.reproduce occasion request
  | .difference left right => Run.difference left right

/-- The code of a broken contract. -/
def breachCode : Nat := 101

/-- The outcome of a run that ended in a session. -/
def Outcome.ofSession (s : Session) : Except Error Unit → Outcome
  | .ok () => ⟨0, s.lines, s.directory⟩
  | .error (.breach _) => ⟨breachCode, s.lines, s.directory⟩
  | .error e => ⟨1, s.lines ++ [.failure ("Error: " ++ e.message)], s.directory⟩

/-- Answer a request with the files of a directory. -/
def Request.run (occasion : Occasion) (directory : Directory) (request : Request) : Outcome :=
  let (result, session) := (request.perform occasion).run ⟨directory, []⟩
  .ofSession session result

/-- Answer a command line; a misused one has a code of its own and writes nothing. -/
def run (occasion : Occasion) (directory : Directory) (arguments : List String) : Outcome :=
  match Request.read? arguments with
  | none => ⟨2, [], directory⟩
  | some request => request.run occasion directory

/-! ## Laws -/

/-- A run ends with code zero or one, or as a broken contract does. -/
theorem code_run (occasion : Occasion) (directory : Directory) (request : Request) :
    (request.run occasion directory).code ∈ [0, 1, breachCode] := by
  unfold Request.run
  generalize (request.perform occasion).run ⟨directory, []⟩ = ended
  obtain ⟨result, session⟩ := ended
  rcases result with e | u
  · cases e <;> simp [Outcome.ofSession]
  · simp [Outcome.ofSession]

end CommandLine
end Retrace
