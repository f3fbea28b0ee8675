import Retrace.CommandLine.Files
import Std.Time.DateTime.Timestamp

/-!
# The program

Reads the files that a command line is about, runs the command on them, and writes what it leaves.
The arguments are texts here, and so are the paths in them.
-/

namespace Retrace
namespace CommandLine

/-- Now, on this machine. -/
def currentOccasion : IO Occasion := do
  let now ← Std.Time.Timestamp.now
  let osName ← IO.getEnv "OSTYPE"
  let osArch ← IO.getEnv "HOSTTYPE"
  return ⟨⟨now.val.second.val, now.val.nano.val.toNat⟩, osName.getD "linux",
    osArch.getD "x86_64"⟩

/-- Why a file cannot be used, by the error of the system. -/
def faultOf : IO.Error → FileFault
  | .noFileOrDirectory .. => .notFound
  | .inappropriateType .. => .isDirectory
  | e => .other (toString e)

/-- What a file action gives, or why it cannot be done. -/
def attempt {β : Type} (action : IO β) : IO (Except FileFault β) := do
  match ← action.toBaseIO with
  | .ok value => return .ok value
  | .error e => return .error (faultOf e)

/-- What is read at paths. -/
def readFiles (paths : List OsPath) : IO (List (OsPath × Except FileFault ByteArray)) :=
  paths.mapM fun path => do
    return (path, ← attempt (IO.FS.readBinFile path.lossy))

/-- The directory where this is read at paths and some paths cannot be written. -/
def directoryOf (read : List (OsPath × Except FileFault ByteArray))
    (refused : List (OsPath × FileFault)) : Directory where
  reading path := (read.lookup path).getD (.error .notFound)
  written before path content :=
    match refused.lookup path with
    | some fault => .error fault
    | none => .ok (Directory.replace before path content)
  reads_written := by
    intro before after path content h
    split at h
    · simp at h
    · rw [← Except.ok.inj h, Directory.replace, if_pos rfl]

/-- Whether what is read at a path is as it was. -/
def unchanged (before after : Directory) (path : OsPath) : Bool :=
  match before.read path, after.read path with
  | .ok old, .ok new => old == new
  | _, .ok _ => false
  | _, .error _ => true

/-- Write the files at paths that are not as they were; the paths that cannot be written. -/
def writeFiles (before after : Directory) (paths : List OsPath) : IO (List (OsPath × FileFault)) :=
  paths.foldlM (fun refused path => do
    match unchanged before after path, after.read path with
    | false, .ok content =>
        match ← attempt (IO.FS.writeBinFile path.lossy content) with
        | .ok () => return refused
        | .error fault => return (path, fault) :: refused
    | _, _ => return refused) []

/-- Write a line that was written so long after the start of the run. -/
def writeLine (milliseconds : Nat) (line : Line) : IO Unit :=
  match line with
  | .text line => IO.println line
  | .duration =>
      IO.println ("Training time: " ++ Decimal.fixed 2 (milliseconds.toFloat / 1000) ++ "s")
  | .warning line => IO.eprintln ("[WARN] " ++ line)
  | .failure line => IO.eprintln ("[ERROR] " ++ line)

/-- Run a command line; the exit code says how it ended. -/
def execute (arguments : List String) : IO UInt32 := do
  let occasion ← currentOccasion
  let request := Request.read? arguments
  let paths := (request.map Request.namedPaths).getD []
  let named ← readFiles paths
  let recorded ← readFiles
    ((request.map (Request.recordedPaths (directoryOf named []))).getD [])
  let start ← IO.monoMsNow
  let before := directoryOf (named ++ recorded) []
  let hoped := run occasion before arguments
  -- only the system knows which paths can be written, so a run that fails to write is run again
  let refused ← writeFiles before hoped.directory paths
  let outcome := if refused.isEmpty then hoped
    else run occasion (directoryOf (named ++ recorded) refused) arguments
  unless request.isSome do
    IO.eprintln "error: the arguments cannot be used"
  for line in outcome.lines do
    writeLine ((← IO.monoMsNow) - start) line
  return outcome.code.toUInt32

end CommandLine
end Retrace

/-- The program. -/
def main (arguments : List String) : IO UInt32 :=
  Retrace.CommandLine.execute arguments
