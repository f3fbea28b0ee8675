import Retrace.Data.Csv
import Retrace.Data.LibSvm
import Retrace.Draws
import Retrace.Error

/-!
# Data sources

A data source holds named features and samples and has a record of where they come from.  Samples
come from a file, from memory, or from one side of a split of another source.  A split shuffles the
samples by a seed and cuts them at a proportion.

Main results:

- Theorem `split_perm`: the two sides of a split together hold the samples of the source.
- Theorem `split_proportion`: only a proportion strictly between zero and one is accepted.
-/

namespace Retrace

/-- Named features and samples with a record. -/
structure DataSource where
  names : List String
  samples : List (Sample Float)
  record : Record

namespace DataSource

/-- The class name of files of a format. -/
def fileClass : DataFormat → String
  | .csv => "CSVSource"
  | .libsvm => "LibSVMSource"

/-- The table of a file of a format. -/
def parse : DataFormat → ByteArray → Except TableFault Table
  | .csv => Csv.parse
  | .libsvm => LibSvm.parse

/-- The number of samples as it is recorded. -/
def recordedSize (samples : List (Sample Float)) : Node :=
  .long (Int64.ofNat samples.length)

/-- The source that a file of a format holds.  Its record holds the text of the path, which leads
back to the file only if the path is a text. -/
def ofFile (format : DataFormat) (directory : Directory) (path : OsPath) : Result DataSource :=
  match directory.read path with
  | .error fault => .error (.file fault)
  | .ok content =>
      match parse format content with
      | .error fault => .error (Error.ofTable fault)
      | .ok table =>
          .ok ⟨table.names, table.samples, .rebuildable .dataSource (fileClass format)
            [("path", .text path.lossy)] [("num-examples", recordedSize table.samples)]⟩

/-- Samples in memory; their record cannot bring them back. -/
def inMemory (names : List String) (samples : List (Sample Float)) (description : String) :
    DataSource :=
  ⟨names, samples, .observed .dataSource "InMemorySource"
    [("description", .text description), ("num-examples", recordedSize samples)]⟩

/-- The two sides of a split. -/
inductive Part where
  | train
  | test
deriving DecidableEq, Repr

/-- Whether a proportion can split a source. -/
def isProportion (p : Float) : Bool :=
  0 < p && p < 1

/-- How many of so many samples are on the first side. -/
def trainSize (size : Nat) (proportion : Float) : Nat :=
  (size.toFloat * proportion).toUInt64.toNat

/-- The samples of one side of a split. -/
def splitSamples (samples : List (Sample Float)) (proportion : Float) (seed : UInt64) :
    Part → List (Sample Float)
  | .train => ((Draws.ofSeed seed).shuffle samples).take (trainSize samples.length proportion)
  | .test => ((Draws.ofSeed seed).shuffle samples).drop (trainSize samples.length proportion)

/-- One side of a split of a source. -/
def split (source : DataSource) (proportion : Float) (seed : UInt64) (part : Part) :
    Result DataSource :=
  if isProportion proportion then
    .ok ⟨source.names, splitSamples source.samples proportion seed part,
      .observed .splitDataSource "TrainTestSplitter"
        [("source", source.record.node),
          ("seed", .long seed.toInt64),
          ("train-proportion", .double proportion),
          ("is-train", .boolean (part = .train))]⟩
  else
    .error (.parameter (.proportion proportion))

/-! ## Laws -/

/-- The two sides of a split together hold the samples of the source. -/
theorem split_perm (samples : List (Sample Float)) (proportion : Float) (seed : UInt64) :
    (splitSamples samples proportion seed .train ++ splitSamples samples proportion seed .test).Perm
      samples := by
  simp only [splitSamples, List.take_append_drop]
  exact Draws.shuffle_perm _ _

/-- Only a proportion strictly between zero and one is accepted. -/
theorem split_proportion {source part : DataSource} {proportion : Float} {seed : UInt64} {p : Part}
    (h : source.split proportion seed p = .ok part) : 0 < proportion ∧ proportion < 1 := by
  unfold split at h
  split at h
  · rename_i hp
    simpa [isProportion] using hp
  · simp at h

end DataSource

/-- How to come by a source. -/
inductive SourcePlan where
  | file (format : DataFormat) (path : OsPath)
  | memory (names : List String) (samples : List (Sample Float)) (description : String)
  | split (inner : SourcePlan) (proportion : Float) (seed : UInt64) (part : DataSource.Part)

/-- The source that a plan leads to, with the files of a directory. -/
def SourcePlan.load (directory : Directory) : SourcePlan → Result DataSource
  | .file format path => DataSource.ofFile format directory path
  | .memory names samples description => .ok (.inMemory names samples description)
  | .split inner proportion seed part => do
      let source ← inner.load directory
      source.split proportion seed part

end Retrace
