/-!
# Blank characters

The blank characters are those of the Unicode property White_Space, twenty-five in all.  Cutting
blanks off a text and splitting a text at blanks are defined by this one class.

Main results:

- Theorem `words_mem`: a word holds no blank and is not empty.
- Theorem `trim_eq_self`: a text that neither starts nor ends with a blank is left alone.
-/

namespace Retrace
namespace Text

/-- Ranges of code points with the property White_Space, first and last included. -/
def blankRanges : List (Nat × Nat) :=
  [(0x09, 0x0D), (0x20, 0x20), (0x85, 0x85), (0xA0, 0xA0), (0x1680, 0x1680), (0x2000, 0x200A),
    (0x2028, 0x2029), (0x202F, 0x202F), (0x205F, 0x205F), (0x3000, 0x3000)]

/-- Whether a character has the property White_Space. -/
def isBlank (c : Char) : Bool :=
  blankRanges.any fun r => r.1 ≤ c.toNat && c.toNat ≤ r.2

/-- Every character that core calls whitespace is blank. -/
theorem isBlank_of_isWhitespace {c : Char} (h : c.isWhitespace = true) : isBlank c = true := by
  simp only [Char.isWhitespace, Bool.or_eq_true, decide_eq_true_eq] at h
  rcases h with ((rfl | rfl) | rfl) | rfl <;> decide

/-- The text without the blanks at its start. -/
def trimStart (s : List Char) : List Char :=
  s.dropWhile isBlank

/-- The text without the blanks at its end. -/
def trimEnd (s : List Char) : List Char :=
  (s.reverse.dropWhile isBlank).reverse

/-- The text without the blanks at its two ends. -/
def trim (s : List Char) : List Char :=
  trimEnd (trimStart s)

/-- Cut a text at blanks; `word` holds, reversed, the word that is being read. -/
def wordsFrom (word : List Char) : List Char → List (List Char)
  | [] => if word.isEmpty then [] else [word.reverse]
  | c :: rest =>
      if isBlank c then
        if word.isEmpty then wordsFrom [] rest else word.reverse :: wordsFrom [] rest
      else
        wordsFrom (c :: word) rest

/-- The maximal runs of characters that are not blank. -/
def words (s : List Char) : List (List Char) :=
  wordsFrom [] s

/-! ## Laws -/

theorem wordsFrom_mem {word s : List Char} (hword : ∀ c ∈ word, isBlank c = false) :
    ∀ w ∈ wordsFrom word s, w ≠ [] ∧ ∀ c ∈ w, isBlank c = false := by
  induction s generalizing word with
  | nil =>
      intro w hw
      unfold wordsFrom at hw
      split at hw
      · simp at hw
      · rename_i hne
        simp only [List.mem_singleton] at hw
        subst hw
        simp_all
  | cons c rest ih =>
      intro w hw
      unfold wordsFrom at hw
      split at hw
      · split at hw
        · exact ih (by simp) w hw
        · rename_i hne
          rcases List.mem_cons.1 hw with rfl | hw
          · simp_all
          · exact ih (by simp) w hw
      · rename_i hc
        exact ih (by simpa [hc] using hword) w hw

/-- A word holds no blank and is not empty. -/
theorem words_mem {s w : List Char} (h : w ∈ words s) :
    w ≠ [] ∧ ∀ c ∈ w, isBlank c = false :=
  wordsFrom_mem (by simp) w h

/-- A text that neither starts nor ends with a blank is left alone. -/
theorem trim_eq_self {s : List Char} (hfirst : ∀ c ∈ s.head?, isBlank c = false)
    (hlast : ∀ c ∈ s.getLast?, isBlank c = false) : trim s = s := by
  have hstart : trimStart s = s := by
    cases s with
    | nil => rfl
    | cons c rest => simp_all [trimStart]
  rw [trim, hstart, trimEnd]
  generalize hr : s.reverse = r
  cases r with
  | nil => simp_all
  | cons c rest =>
      have hc : isBlank c = false := by
        apply hlast
        rw [← List.head?_reverse, hr]
        simp
      rw [List.dropWhile_cons, if_neg (by simp [hc]), ← hr, List.reverse_reverse]

end Text
end Retrace
