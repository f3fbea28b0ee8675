import Retrace.Directory

/-!
# Folders

A folder holds files by name, and nothing else: what a program finds that works in a new directory
of a system.  A path leads to a name in the folder, to the folder itself, or out of it, where only
the directories that lead to the folder are known.

Main results:

- Theorem `place_eq_ok`: where a path leads does not depend on the files.
- Theorem `reads_written`: what was written to a path is read from it, so a folder is a directory.
-/

namespace Retrace

/-- File names with contents. -/
structure Folder where
  files : List (OsPath × ByteArray)

namespace Folder

/-- Where a path leads. -/
inductive Place where
  /-- to a directory -/
  | folder
  /-- to a name in the folder, with or without a file; whether a slash follows the name -/
  | entry (name : OsPath) (slash : Bool)
deriving DecidableEq

/-- The content of the file with a name. -/
def content? (f : Folder) (name : OsPath) : Option ByteArray :=
  f.files.lookup name

/-- The folder without the file of a name. -/
def erase (f : Folder) (name : OsPath) : Folder :=
  ⟨f.files.filter fun e => e.1 != name⟩

/-- The folder with the content of a file replaced or added. -/
def put (f : Folder) (name : OsPath) (content : ByteArray) : Folder :=
  ⟨(name, content) :: (f.erase name).files⟩

/-! ## Places -/

/-- Whether a step of a path stays in its directory. -/
def stays (step : List UInt8) : Bool :=
  step.isEmpty || step = [OsPath.point]

/-- Whether a step of a path goes to the directory above. -/
def rises (step : List UInt8) : Bool :=
  step = [OsPath.point, OsPath.point]

/-- How many bytes the name of a file may have. -/
def longestName : Nat := 255

/-- How many bytes a path may have. -/
def longestPath : Nat := 4095

/-- Follow the steps of a path outside of the folder, where only the directories that lead to it are
known. -/
def walkOutside : List (List UInt8) → Except FileFault Place
  | [] => .ok .folder
  | step :: rest =>
      if stays step || rises step then walkOutside rest
      else if longestName < step.length then .error .nameTooLong
      else .error .notFound

/-- Follow the steps of a path from a folder that has files with some names. -/
def walk (has : OsPath → Bool) : List (List UInt8) → Except FileFault Place
  | [] => .ok .folder
  | step :: rest =>
      if stays step then walk has rest
      else if rises step then walkOutside rest
      else if longestName < step.length then .error .nameTooLong
      else if rest.isEmpty then .ok (.entry ⟨step.toByteArray⟩ false)
      else if rest.all List.isEmpty then .ok (.entry ⟨step.toByteArray⟩ true)
      else if has ⟨step.toByteArray⟩ then .error .notDirectory
      else .error .notFound

/-- Where a path leads in a folder that has files with some names. -/
def place (has : OsPath → Bool) (path : OsPath) : Except FileFault Place :=
  let bytes := path.bytes.toList
  if bytes.contains 0 then .error .zeroInName
  else if bytes.isEmpty then .error .notFound
  else if longestPath < bytes.length then .error .nameTooLong
  else if bytes.head? = some OsPath.slash then walkOutside (Text.fields OsPath.slash bytes)
  else walk has (Text.fields OsPath.slash bytes)

/-! ## Reading and writing -/

/-- What is read in a folder with these contents. -/
def readingOf (content? : OsPath → Option ByteArray) (path : OsPath) :
    Except FileFault ByteArray :=
  match place (fun name => (content? name).isSome) path with
  | .error fault => .error fault
  | .ok .folder => .error .isDirectory
  | .ok (.entry name slash) =>
      match content? name with
      | none => .error .notFound
      | some content => if slash then .error .notDirectory else .ok content

/-- The contents of the files in a folder where this is read. -/
def contentsOf (before : Reading) (name : OsPath) : Option ByteArray :=
  (before name).toOption

/-- The name that is written at a path in a folder where this is read. -/
def target (before : Reading) (path : OsPath) : Except FileFault OsPath :=
  match place (fun name => (contentsOf before name).isSome) path with
  | .error fault => .error fault
  | .ok (.entry name false) => .ok name
  | .ok _ => .error .isDirectory

/-- What is read in a folder once a content is written to a path. -/
def written (before : Reading) (path : OsPath) (content : ByteArray) : Except FileFault Reading :=
  (target before path).map fun name =>
    readingOf fun other => if other = name then some content else contentsOf before other

/-- Where steps lead does not depend on the files. -/
theorem walk_eq_ok {has : OsPath → Bool} (also : OsPath → Bool) {steps : List (List UInt8)}
    {p : Place} (h : walk has steps = .ok p) : walk also steps = .ok p := by
  induction steps with
  | nil => simpa [walk] using h
  | cons step rest ih =>
      simp only [walk] at h ⊢
      grind

/-- Where a path leads does not depend on the files. -/
theorem place_eq_ok {has : OsPath → Bool} (also : OsPath → Bool) {path : OsPath} {p : Place}
    (h : place has path = .ok p) : place also path = .ok p := by
  have hwalk : ∀ steps, walk has steps = .ok p → walk also steps = .ok p := fun _ => walk_eq_ok also
  simp only [place] at h ⊢
  grind

/-- What was written to a path is read from it. -/
theorem reads_written {before after : Reading} {path : OsPath} {content : ByteArray}
    (h : written before path content = .ok after) : after path = .ok content := by
  rw [written, target] at h
  cases hplace : place (fun name => (contentsOf before name).isSome) path with
  | error fault => simp [hplace, Except.map] at h
  | ok found =>
      rcases found with _ | ⟨name, _ | _⟩
      · simp [hplace, Except.map] at h
      · simp only [hplace, Except.map, Except.ok.injEq] at h
        rw [← h, readingOf, place_eq_ok _ hplace]
        simp
      · simp [hplace, Except.map] at h

/-- The directory that a folder is. -/
def directory (f : Folder) : Directory where
  reading := readingOf f.content?
  written := written
  reads_written := reads_written

/-- Where a path leads to a name in a folder, every content is written there. -/
theorem isOk_write {path name : OsPath} (h : place (fun _ => false) path = .ok (.entry name false))
    (f : Folder) (content : ByteArray) : (f.directory.write path content).isOk = true := by
  have hwritten : ∃ after, written f.directory.reading path content = .ok after := by
    rw [written, target, place_eq_ok _ h]
    exact ⟨_, rfl⟩
  obtain ⟨after, hafter⟩ := hwritten
  have hwrite : f.directory.written f.directory.reading path content = .ok after := hafter
  rw [Directory.write, hwrite]
  rfl

/-- What is read in a folder is the content of a file. -/
theorem exists_mem_of_read {f : Folder} {path : OsPath} {content : ByteArray}
    (h : f.directory.read path = .ok content) : ∃ name, (name, content) ∈ f.files := by
  change readingOf f.content? path = .ok content at h
  rw [readingOf] at h
  split at h
  · simp at h
  · simp at h
  · rename_i name slash hplace
    split at h
    · simp at h
    · rename_i found hfound
      split at h
      · simp at h
      · obtain ⟨before, after, hfiles, -⟩ := List.lookup_eq_some_iff.1 hfound
        rw [Except.ok.inj h] at hfiles
        exact ⟨name, by simp [hfiles]⟩

end Folder
end Retrace
