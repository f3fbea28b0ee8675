import Retrace.Data.Table
import Retrace.Proofs.DoubleEquality
import Retrace.Proofs.StoredFiles

/-!
# Lines with content

A data file is read line by line, but only lines that have content reach the reader of its format.
They keep the numbers that they have in the whole text, so that reading a text is reading its
numbered content.  Where each line gives one item or a fault, reading ends with the items of all
lines, or with the fault of the first line that has one, under the number of that line.  The numbers
stand in faults alone: lines without content may come and go as long as there is no fault.  Every
format brings a label to one or minus one by its sign.

Main results:

- Theorem `binaryLabel_eq_sign`: a label is brought to one exactly if it is positive.
- Theorem `foldLines_eq_readAll`: reading a text is reading its numbered content.
- Theorems `readAll_ok`, `readAll_error`: all lines give their items, or the first one without one
  is named.
- Theorem `readAll_ok_congr`: what is read without a fault does not depend on the numbers.
-/

namespace Retrace

/-- A label is brought to one exactly if it is positive. -/
theorem binaryLabel_eq_sign (label : Float) :
    binaryLabel label = if 0 < label then 1 else -1 := by
  have hzero : ∀ x : Float, (x == 1) = true ∨ (x == -1) = true → x ≠ -0 := by
    rintro x hx rfl
    revert hx
    decide +kernel
  rw [binaryLabel]
  split
  · rename_i h
    rw [Bool.or_eq_true] at h
    have hlabel := hzero label h
    rcases h with h | h
    · rw [Double.eq_of_beq h hlabel (by decide +kernel), if_pos (by decide +kernel)]
    · rw [Double.eq_of_beq h hlabel (by decide +kernel), if_neg (by decide +kernel)]
  · rfl

namespace Table

variable {β τ : Type}

/-! ## Content -/

/-- The lines that have content, from a number on, without blanks at their ends. -/
def numbered (number : Nat) (lines : List (List Char)) : List (List Char × Nat) :=
  ((lines.map Text.trim).zipIdx number).filter fun line => !isPassedOver line.1

/-- The lines of a text that have content, with their numbers in the whole text, counted from
one. -/
def contents (text : String) : List (List Char × Nat) :=
  numbered 1 (Text.lines text.toList)

/-- A first line is numbered unless it is passed over. -/
theorem numbered_cons (number : Nat) (line : List Char) (rest : List (List Char)) :
    numbered number (line :: rest) =
      if isPassedOver (Text.trim line) then numbered (number + 1) rest
      else (Text.trim line, number) :: numbered (number + 1) rest := by
  rw [numbered, List.map_cons, List.zipIdx_cons, List.filter_cons]
  cases isPassedOver (Text.trim line) <;> rfl

/-- Without their numbers, the lines that have content are those that are not passed over. -/
theorem map_fst_numbered (number : Nat) (lines : List (List Char)) :
    (numbered number lines).map Prod.fst =
      (lines.map Text.trim).filter fun line => !isPassedOver line := by
  have hsplit : (fun line : List Char × Nat => !isPassedOver line.1) =
      (fun line => !isPassedOver line) ∘ Prod.fst := rfl
  rw [numbered, hsplit, ← List.filter_map, List.zipIdx_map_fst]

/-- Lines that are passed over make no difference to what has content. -/
theorem map_fst_contents_of_passedOver {text other : String}
    {before skipped after : List (List Char)}
    (htext : Text.lines text.toList = before ++ after)
    (hother : Text.lines other.toList = before ++ skipped ++ after)
    (hskipped : ∀ line ∈ skipped, isPassedOver (Text.trim line) = true) :
    (contents text).map Prod.fst = (contents other).map Prod.fst := by
  have hnone : (skipped.map Text.trim).filter (fun line => !isPassedOver line) = [] := by
    simpa [List.filter_eq_nil_iff] using hskipped
  rw [contents, contents, map_fst_numbered, map_fst_numbered, htext, hother, List.map_append,
    List.map_append, List.map_append, List.filter_append, List.filter_append, List.filter_append,
    hnone, List.append_nil]

/-! ## Reading -/

/-- Read numbered lines one after the other. -/
def readAll (format : DataFormat) (step : τ → List Char → Except LineFault τ) (table : τ) :
    List (List Char × Nat) → Except TableFault τ
  | [] => .ok table
  | (line, number) :: rest =>
      match step table line with
      | .error fault => .error (.line format number fault)
      | .ok table => readAll format step table rest

/-- Reading lines is reading those that have content. -/
theorem foldLines_eq_readAll (format : DataFormat) (step : τ → List Char → Except LineFault τ)
    (table : τ) (number : Nat) (lines : List (List Char)) :
    foldLines format step table number (lines.map some) =
      readAll format step table (numbered number lines) := by
  induction lines generalizing table number with
  | nil => rfl
  | cons line rest ih =>
      rw [List.map_cons, numbered_cons]
      simp only [foldLines]
      split
      · exact ih table (number + 1)
      · simp only [readAll]
        cases step table (Text.trim line) with
        | error fault => rfl
        | ok next => exact ih next (number + 1)

/-- The content of a text has the lines of the text. -/
theorem contentLines_toUTF8 (text : String) :
    Text.contentLines text.toUTF8 = (Text.lines text.toList).map some := by
  rw [Text.contentLines, Text.decodeUtf8_toUTF8]

/-- What is read without a fault does not depend on the numbers of the lines. -/
theorem readAll_ok_congr {format : DataFormat} {step : τ → List Char → Except LineFault τ}
    {table found : τ} {lines others : List (List Char × Nat)}
    (h : lines.map Prod.fst = others.map Prod.fst)
    (hread : readAll format step table lines = .ok found) :
    readAll format step table others = .ok found := by
  induction lines generalizing table others with
  | nil =>
      rw [List.map_nil, eq_comm, List.map_eq_nil_iff] at h
      rwa [h]
  | cons line rest ih =>
      obtain ⟨other, others, rfl, hline, hrest⟩ := List.map_eq_cons_iff.1 h.symm
      simp only [readAll] at hread ⊢
      rw [hline]
      cases hstep : step table line.1 with
      | error fault => simp [hstep] at hread
      | ok next =>
          rw [hstep] at hread
          exact ih hrest.symm hread

/-- Lines that every step treats alike can stand for each other. -/
theorem readAll_congr_line {format : DataFormat} {step : τ → List Char → Except LineFault τ}
    {line other : List Char} (h : ∀ table, step table line = step table other)
    (before after : List (List Char × Nat)) (number : Nat) (table : τ) :
    readAll format step table (before ++ (line, number) :: after) =
      readAll format step table (before ++ (other, number) :: after) := by
  induction before generalizing table with
  | nil => simp only [List.nil_append, readAll, h]
  | cons first before ih =>
      simp only [List.cons_append, readAll]
      cases step table first.1 with
      | error fault => rfl
      | ok next => exact ih next

/-! ## Outcomes -/

/-- Each of some things that correspond to others has its counterpart. -/
theorem exists_of_mem {γ : Type} {r : β → γ → Prop} {xs : List β} {ys : List γ}
    (h : List.Forall₂ r xs ys) {x : β} (hx : x ∈ xs) : ∃ y ∈ ys, r x y := by
  induction h with
  | nil => simp at hx
  | @cons a b _ ys hab _ ih =>
      rcases List.mem_cons.1 hx with rfl | hx
      · exact ⟨b, List.mem_cons_self, hab⟩
      · obtain ⟨y, hy, hxy⟩ := ih hx
        exact ⟨y, List.mem_cons_of_mem b hy, hxy⟩

/-- Whether a number is that of the first of some lines that lacks a property. -/
def FirstWithout (p : List Char → Prop) (lines : List (List Char × Nat)) (number : Nat) : Prop :=
  ∃ before line after, lines = before ++ (line, number) :: after ∧ (∀ l ∈ before, p l.1) ∧ ¬p line

/-- Either all lines have a property, or one of them is the first that lacks it. -/
theorem forall_or_firstWithout (p : List Char → Prop) (lines : List (List Char × Nat)) :
    (∀ l ∈ lines, p l.1) ∨ ∃ number, FirstWithout p lines number := by
  induction lines with
  | nil => exact .inl (by simp)
  | cons line rest ih =>
      by_cases hline : p line.1
      · rcases ih with hall | ⟨number, before, l, after, rfl, hbefore, hl⟩
        · exact .inl (List.forall_mem_cons.2 ⟨hline, hall⟩)
        · exact .inr ⟨number, line :: before, l, after, rfl,
            List.forall_mem_cons.2 ⟨hline, hbefore⟩, hl⟩
      · exact .inr ⟨line.2, [], line.1, rest, rfl, by simp, hline⟩

variable (format : DataFormat) {step : τ → List Char → Except LineFault τ} (make : List β → τ)
  {read : List Char → Except LineFault β}

/-- If every line gives an item, reading all lines gives their items. -/
theorem readAll_ok (hstep : ∀ items line, step (make items) line =
      (read line).map fun item => make (item :: items))
    {lines : List (List Char × Nat)} (h : ∀ line ∈ lines, ∃ item, read line.1 = .ok item)
    (items : List β) :
    ∃ found, List.Forall₂ (fun line item => read line.1 = .ok item) lines found ∧
      readAll format step (make items) lines = .ok (make (found.reverse ++ items)) := by
  induction lines generalizing items with
  | nil => exact ⟨[], .nil, rfl⟩
  | cons line rest ih =>
      obtain ⟨⟨item, hitem⟩, hrest⟩ := List.forall_mem_cons.1 h
      obtain ⟨found, hfound, hread⟩ := ih hrest (item :: items)
      refine ⟨item :: found, .cons hitem hfound, ?_⟩
      simp only [readAll, hstep, hitem, Except.map]
      rw [hread, List.reverse_cons, List.append_assoc]
      rfl

/-- The first line that gives no item is named with its fault. -/
theorem readAll_error (hstep : ∀ items line, step (make items) line =
      (read line).map fun item => make (item :: items))
    {lines : List (List Char × Nat)} {number : Nat}
    (h : FirstWithout (fun line => ∃ item, read line = .ok item) lines number) (items : List β) :
    ∃ fault, readAll format step (make items) lines = .error (.line format number fault) := by
  obtain ⟨before, line, after, rfl, hbefore, hline⟩ := h
  induction before generalizing items with
  | nil =>
      cases hread : read line with
      | ok item => exact absurd ⟨item, hread⟩ hline
      | error fault =>
          refine ⟨fault, ?_⟩
          simp [readAll, hstep, hread, Except.map]
  | cons first before ih =>
      obtain ⟨item, hitem⟩ := hbefore first List.mem_cons_self
      obtain ⟨fault, hfault⟩ :=
        ih (item :: items) fun l hl => hbefore l (List.mem_cons_of_mem first hl)
      refine ⟨fault, ?_⟩
      simp only [List.cons_append, readAll, hstep, hitem, Except.map]
      exact hfault

end Table
end Retrace
