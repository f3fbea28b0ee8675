import Retrace.Decimal.Reading
import Retrace.Sample
import Retrace.Smo
import Retrace.Text.Blank
import Retrace.Text.Lines

/-!
# Tables of samples

A data file becomes a table: the names of its features and its samples.  Two formats are known.
Both pass over blank lines and over lines that start with a number sign, blanks at the ends of a
line not counting, and both name the line of a fault by its number in the whole file.

Main results:

- Theorem `content_of_blank`: a blank line has no content.
-/

namespace Retrace

/-- Feature names and samples. -/
structure Table where
  names : List String
  samples : List (Sample Float)
deriving DecidableEq, Repr

/-- Why a line of a data file cannot be read. -/
inductive LineFault where
  | tooFewFields (line : String)
  | columns (expected found : Nat)
  | badLabel (text : String)
  | badColumn (index : Nat) (text : String)
  | badPair (text : String)
  | badIndex (text : String)
  | badValue (text : String)
  | zeroIndex
  | emptyLine
deriving DecidableEq, Repr

/-- The sentence about a line. -/
def LineFault.message : LineFault → String
  | .tooFewFields line => "too few fields: " ++ line
  | .columns expected found =>
      "expected " ++ toString expected ++ " columns, found " ++ toString found
  | .badLabel text => "invalid label: " ++ text
  | .badColumn index text => "invalid feature value at column " ++ toString index ++ ": " ++ text
  | .badPair text => "invalid feature format: " ++ text
  | .badIndex text => "invalid feature index: " ++ text
  | .badValue text => "invalid feature value: " ++ text
  | .zeroIndex => "feature indices are 1-based, found 0"
  | .emptyLine => "empty line"

/-- The formats of data files. -/
inductive DataFormat where
  | csv
  | libsvm
deriving DecidableEq, Repr

/-- Why a data file cannot be read. -/
inductive TableFault where
  | noSamples
  | notUtf8
  | line (format : DataFormat) (number : Nat) (fault : LineFault)
  | breach (breach : Breach)
deriving DecidableEq, Repr

namespace Table

/-- Whether nothing is to be read from a line. -/
def isPassedOver (line : List Char) : Bool :=
  line.isEmpty || line.head? == some '#'

/-- A number as it stands in a data file. -/
def number? (text : List Char) : Option Float :=
  match Decimal.readFloat text with
  | .ok x => some x
  | .error _ => none

/-- Read the lines that have content one after the other, with their numbers and without blanks at
their ends. -/
def foldLines {τ : Type} (format : DataFormat)
    (step : τ → List Char → Except LineFault τ) (table : τ) (number : Nat) :
    List (Option (List Char)) → Except TableFault τ
  | [] => .ok table
  | none :: _ => .error .notUtf8
  | some line :: rest =>
      let line := Text.trim line
      if isPassedOver line then foldLines format step table (number + 1) rest
      else
        match step table line with
        | .error fault => .error (.line format number fault)
        | .ok table => foldLines format step table (number + 1) rest

/-- A blank line has no content. -/
theorem content_of_blank {line : List Char} (h : ∀ c ∈ line, Text.isBlank c = true) :
    isPassedOver (Text.trim line) = true := by
  have hstart : Text.trimStart line = [] := by
    induction line with
    | nil => rfl
    | cons c rest ih =>
        rw [Text.trimStart, List.dropWhile_cons, if_pos (h c List.mem_cons_self)]
        exact ih fun d hd => h d (List.mem_cons_of_mem c hd)
  simp [isPassedOver, Text.trim, hstart, Text.trimEnd]

end Table
end Retrace
