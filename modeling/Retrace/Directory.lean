import Retrace.Path

/-!
# Directories

A program works in a directory, from which paths lead to files.  Of the directory only this is
known: what reading each path gives, and what reading gives once a content is written to a path.
Paths may lead out of the directory, several paths may lead to one file, and any path may be
refused; what was written to a path is read from it.

Main results:

- Theorem `read_write`: what was written to a path is read from it.
-/

namespace Retrace

/-- Why a file cannot be used. -/
inductive FileFault where
  | notFound
  | isDirectory
  | notDirectory
  | nameTooLong
  | zeroInName
  | notUtf8
  /-- what else the system says -/
  | other (sentence : String)
deriving DecidableEq, Repr

/-- The sentence about a file that cannot be used. -/
def FileFault.message : FileFault → String
  | .notFound => "No such file or directory (os error 2)"
  | .isDirectory => "Is a directory (os error 21)"
  | .notDirectory => "Not a directory (os error 20)"
  | .nameTooLong => "File name too long (os error 36)"
  | .zeroInName => "file name contained an unexpected NUL byte"
  | .notUtf8 => "stream did not contain valid UTF-8"
  | .other sentence => sentence

/-- What reading each path gives. -/
abbrev Reading :=
  OsPath → Except FileFault ByteArray

/-- Where a program works, by what reading and writing a path does. -/
structure Directory where
  /-- what is read at each path -/
  reading : Reading
  /-- what is read at each path once a content is written to one of them -/
  written : Reading → OsPath → ByteArray → Except FileFault Reading
  /-- what was written is read -/
  reads_written : ∀ {before after : Reading} {path : OsPath} {content : ByteArray},
    written before path content = .ok after → after path = .ok content

namespace Directory

/-- The content of the file at a path. -/
def read (d : Directory) (path : OsPath) : Except FileFault ByteArray :=
  d.reading path

/-- The directory with a content written to a path. -/
def write (d : Directory) (path : OsPath) (content : ByteArray) : Except FileFault Directory :=
  (d.written d.reading path content).map fun after => { d with reading := after }

/-- What is read once a content is written to one path and nothing else changes. -/
def replace (before : Reading) (path : OsPath) (content : ByteArray) (other : OsPath) :
    Except FileFault ByteArray :=
  if other = path then .ok content else before other

/-- A directory without files, where every path can be written. -/
def empty : Directory where
  reading _ := .error .notFound
  written before path content := .ok (replace before path content)
  reads_written := by
    intro before after path content h
    rw [← Except.ok.inj h, replace, if_pos rfl]

/-! ## Laws -/

/-- What was written to a path is read from it. -/
theorem read_write {d e : Directory} {path : OsPath} {content : ByteArray}
    (h : d.write path content = .ok e) : e.read path = .ok content := by
  rw [write] at h
  cases hwritten : d.written d.reading path content with
  | error fault => simp [hwritten, Except.map] at h
  | ok after =>
      simp only [hwritten, Except.map, Except.ok.injEq] at h
      rw [← h]
      exact d.reads_written hwritten

end Directory
end Retrace
