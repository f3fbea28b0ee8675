import Retrace.Data.Table
import Retrace.Text.Fields

/-!
# Comma-separated files

Every line has the values of the features and then the label.  The first line that has content is a
header if most of its feature fields are no numbers.  All lines have as many fields as the first
one, and values of zero are not stored.

Main results:

- Theorem `entries_ne_zero`: no stored value is zero.
-/

namespace Retrace
namespace Csv

/-- What has been read: the header, the number of columns, and the samples, the last one first. -/
structure Progress where
  header : Option (List String)
  width : Option Nat
  samples : List (Sample Float)

/-- The fields of a line without the blanks at their ends. -/
def fields (line : List Char) : List (List Char) :=
  (Text.fields ',' line).map Text.trim

/-- Whether a line is a header: more than half of its feature fields are no numbers. -/
def isHeader (line : List Char) : Bool :=
  let features := (fields line).dropLast
  let texts := features.filter fun f => (Table.number? f).isNone
  !features.isEmpty && features.length < texts.length * 2

/-- Read the feature fields from a column on, without the values of zero. -/
def readFeatures (column : Nat) : List (List Char) → Except LineFault (List (Nat × Float))
  | [] => .ok []
  | field :: rest =>
      match Table.number? field with
      | none => .error (.badColumn (column + 1) (String.ofList field))
      | some value =>
          (readFeatures (column + 1) rest).map fun entries =>
            if value == 0 then entries else (column, value) :: entries

/-- Read a line of so many columns, if their number is known. -/
def readSample (width : Option Nat) (line : List Char) : Except LineFault (Sample Float × Nat) :=
  let fields := fields line
  match fields.getLast?, fields.dropLast with
  | some last, first :: others =>
      match width.filter (· ≠ fields.length) with
      | some expected => .error (.columns expected fields.length)
      | none =>
          match Table.number? last with
          | none => .error (.badLabel (String.ofList last))
          | some label =>
              (readFeatures 0 (first :: others)).map fun entries =>
                (⟨.ofEntries entries, binaryLabel label⟩, fields.length)
  | _, _ => .error (.tooFewFields (String.ofList line))

/-- Read one line that has content. -/
def readLine (p : Progress) (line : List Char) : Except LineFault Progress :=
  if p.width.isNone && isHeader line then
    let names := (fields line).map String.ofList
    .ok { p with header := some names, width := some names.length }
  else
    (readSample p.width line).map fun found =>
      { p with width := some (p.width.getD found.2), samples := found.1 :: p.samples }

/-- The table of a comma-separated file. -/
def parse (content : ByteArray) : Except TableFault Table :=
  match Table.foldLines .csv readLine ⟨none, none, []⟩ 1 (Text.contentLines content) with
  | .error fault => .error fault
  | .ok p =>
      if p.samples.isEmpty then .error .noSamples
      else
        let count := p.width.getD 1 - 1
        let names :=
          match p.header with
          | some names => names.take count
          | none => (List.range count).map defaultFeatureName
        .ok ⟨names, p.samples.reverse⟩

/-! ## Laws -/

/-- No stored value is zero. -/
theorem entries_ne_zero {column : Nat} {texts : List (List Char)} {entries : List (Nat × Float)}
    (h : readFeatures column texts = .ok entries) : ∀ e ∈ entries, (e.2 == 0) = false := by
  induction texts generalizing column entries with
  | nil =>
      simp only [readFeatures, Except.ok.injEq] at h
      simp [← h]
  | cons field rest ih =>
      unfold readFeatures at h
      split at h
      · simp at h
      · rename_i value hvalue
        cases hrest : readFeatures (column + 1) rest with
        | error fault => simp [hrest, Except.map] at h
        | ok more =>
            simp only [hrest, Except.map, Except.ok.injEq] at h
            subst h
            intro e he
            split at he
            · exact ih hrest e he
            · rename_i hne
              rcases List.mem_cons.1 he with rfl | he
              · simpa using hne
              · exact ih hrest e he

end Csv
end Retrace
