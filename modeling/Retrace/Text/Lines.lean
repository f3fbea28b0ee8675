/-!
# Lines of a text

A line ends at a line feed; one carriage return right before the line feed belongs to the line end.
A text that ends without a line feed has a last line of its own, and there is no line after a final
line feed.  The content of a file is cut into lines before it is decoded, so that a line that is not
UTF-8 is found at its place and the lines before it are read.

Main results:

- Theorem `lines_unlines`: lines without line feeds that do not end in a carriage return are read
  back from the text that puts a line feed after each.
-/

namespace Retrace
namespace Text

/-- Drop one carriage return at the end of a line. -/
def dropReturn (line : List Char) : List Char :=
  if line.getLast? = some '\r' then line.dropLast else line

/-- Cut a text into lines; `line` holds, reversed, the line that is being read. -/
def linesFrom (line : List Char) : List Char → List (List Char)
  | [] => if line.isEmpty then [] else [line.reverse]
  | c :: rest =>
      if c = '\n' then dropReturn line.reverse :: linesFrom [] rest else linesFrom (c :: line) rest

/-- The lines of a text without their line ends. -/
def lines (s : List Char) : List (List Char) :=
  linesFrom [] s

/-- The text with a line feed after every line. -/
def unlines (ls : List (List Char)) : List Char :=
  ls.flatMap fun line => line ++ ['\n']

theorem linesFrom_append {line before rest : List Char} (h : '\n' ∉ before) :
    linesFrom line (before ++ '\n' :: rest) =
      dropReturn (line.reverse ++ before) :: linesFrom [] rest := by
  induction before generalizing line with
  | nil => simp [linesFrom]
  | cons c before ih =>
      simp only [List.mem_cons, not_or] at h
      have hc : ¬ c = '\n' := fun e => h.1 e.symm
      simp only [List.cons_append, linesFrom, if_neg hc]
      rw [ih h.2]
      simp

/-- Lines without line feeds that do not end in a carriage return are read back. -/
theorem lines_unlines {ls : List (List Char)}
    (h : ∀ line ∈ ls, '\n' ∉ line ∧ line.getLast? ≠ some '\r') : lines (unlines ls) = ls := by
  induction ls with
  | nil => rfl
  | cons line ls ih =>
      have hline := h line (by simp)
      have hrest := ih fun l hl => h l (by simp [hl])
      have hsplit : unlines (line :: ls) = line ++ '\n' :: unlines ls := by simp [unlines]
      rw [lines, hsplit, linesFrom_append hline.1]
      rw [lines] at hrest
      simp [dropReturn, hline.2, hrest]

/-! ## Content of a file -/

/-- Cut bytes after every line feed; `line` holds, reversed, the line that is being read. -/
def byteLinesFrom (line : List UInt8) : List UInt8 → List (List UInt8)
  | [] => if line.isEmpty then [] else [line.reverse]
  | b :: rest =>
      if b = 10 then (b :: line).reverse :: byteLinesFrom [] rest
      else byteLinesFrom (b :: line) rest

/-- Decode UTF-8; nothing for bytes that are not UTF-8. -/
def decodeUtf8 (bytes : ByteArray) : Option (List Char) :=
  (String.fromUTF8? bytes).map String.toList

/-- The lines of a file's content, a line that is not UTF-8 as `none`. -/
def contentLines (content : ByteArray) : List (Option (List Char)) :=
  match decodeUtf8 content with
  | some s => (lines s).map some
  | none =>
      (byteLinesFrom [] content.toList).map fun line =>
        (decodeUtf8 ⟨line.toArray⟩).map fun s => (lines s).headD []

end Text
end Retrace
