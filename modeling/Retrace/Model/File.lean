import Retrace.Instant.Reading
import Retrace.Model.Encoding

/-!
# Model files

A model file holds a model together with the version of the format, the version of the library and
the time when it was written.  Only files of the current format are accepted.

Main results:

- Theorem `version_of_read`: a file that is accepted has the current format version.
-/

namespace Retrace

/-- A model as it is kept in a file. -/
structure ModelFile where
  formatVersion : Nat
  libraryVersion : String
  savedAt : Instant
  model : Model

namespace ModelFile

/-- The current version of the format. -/
def currentVersion : Nat := 1

/-- The names of the members of a file. -/
def memberNames : List String :=
  ["format_version", "library_version", "saved_at", "model"]

/-- A model as it is kept in a file that is written now. -/
def ofModel (m : Model) (occasion : Occasion) : ModelFile :=
  ⟨currentVersion, Retrace.libraryVersion, occasion.time, m⟩

/-- A file as JSON. -/
def encode (f : ModelFile) : Json :=
  .record
    [("format_version", .nat f.formatVersion),
      ("library_version", .string f.libraryVersion),
      ("saved_at", .string f.savedAt.renderShort),
      ("model", f.model.encode)]

/-- Read the time in a file. -/
def readTime (j : Json) : Option Instant :=
  j.string?.bind fun s => Instant.read s.toList

/-- Read the parts of a file, whatever its version. -/
def decode : Nat → Json → Option ModelFile
  | 0, _ => none
  | depth + 1, j =>
      match j.fields? memberNames with
      | some [version, library, savedAt, model] => do
          let version ← version.nat? (UInt32.size - 1)
          let library ← library.string?
          let savedAt ← readTime savedAt
          let model ← Model.read depth model
          return ⟨version, library, savedAt, model⟩
      | _ => none

/-- Whether the member with a name can be read. -/
def readsMember (depth : Nat) (name : String) (j : Json) : Bool :=
  if name = "format_version" then (j.nat? (UInt32.size - 1)).isSome
  else if name = "library_version" then j.string?.isSome
  else if name = "saved_at" then (readTime j).isSome
  else (Model.read depth j).isSome

/-- Why the record in a file is refused, if all before it can be read. -/
def refusal : Nat → Json → Option ExtractionFault
  | 0, _ => none
  | depth + 1, j =>
      Json.refusalAmong memberNames (readsMember depth)
        (fun name j => if name = "model" then Model.refusal depth j else none) []
        (j.membersInOrder memberNames)

/-- What a text is by a reader, or why it is not. -/
def decodeText {β : Type} (reader : Nat → Json → Option β)
    (refusal : Nat → Json → Option ExtractionFault) (s : List Char) : Except DecodeFault β :=
  let (j, ended) := Json.parse s
  match reader Json.deepest j, ended with
  | some b, true => .ok b
  | _, _ =>
      match refusal Json.deepest j with
      | some fault => .error (.refused fault)
      | none => .error .unreadable

/-- The file that a content is. -/
def ofContent (content : ByteArray) : Result ModelFile :=
  match decodeText decode refusal (Json.ofContent content) with
  | .error fault => .error fault.error
  | .ok f =>
      if f.formatVersion = currentVersion then .ok f
      else .error (.format (.version f.formatVersion))

/-- The file at a path; a directory is no model. -/
def load (directory : Directory) (path : OsPath) : Result ModelFile :=
  match directory.read path with
  | .error .isDirectory => .error (.format .unreadable)
  | .error fault => .error (.file fault)
  | .ok content => ofContent content

/-- The directory with a model written to a path. -/
def save (directory : Directory) (path : OsPath) (m : Model) (occasion : Occasion) :
    Result Directory :=
  match directory.write path (ofModel m occasion).encode.renderPretty.toUTF8 with
  | .error fault => .error (.file fault)
  | .ok directory => .ok directory

/-! ## Laws -/

/-- Where a path can be written, every model is saved. -/
theorem exists_save {directory : Directory} {path : OsPath}
    (hwrite : ∀ content, (directory.write path content).isOk = true) (m : Model)
    (now : Occasion) : ∃ files, save directory path m now = .ok files := by
  have hmodel := hwrite (ofModel m now).encode.renderPretty.toUTF8
  rw [save]
  cases hwritten : directory.write path (ofModel m now).encode.renderPretty.toUTF8 with
  | error fault =>
      rw [hwritten] at hmodel
      simp [Except.isOk, Except.toBool] at hmodel
  | ok files => exact ⟨files, rfl⟩

/-- A file that is accepted has the current format version. -/
theorem version_of_read {content : ByteArray} {f : ModelFile} (h : ofContent content = .ok f) :
    f.formatVersion = currentVersion := by
  unfold ofContent at h
  split at h
  · simp at h
  · split at h
    · rename_i hv
      simp only [Except.ok.injEq] at h
      exact h ▸ hv
    · simp at h

end ModelFile
end Retrace
