/-!
# Fields of a line

A line, or a path, is cut at every separator.  There is always one field more than there are
separators, and a field may be empty.

Main results:

- Theorem `length_fields`: the fields are one more than the separators.
-/

namespace Retrace
namespace Text

variable {α : Type} [DecidableEq α]

/-- The parts of a text between the separators. -/
def fields (separator : α) : List α → List (List α)
  | [] => [[]]
  | c :: rest =>
      if c = separator then [] :: fields separator rest
      else
        match fields separator rest with
        | first :: others => (c :: first) :: others
        | [] => [[c]]

/-- The text before and the text after the first separator, if there is one. -/
def cutAt (separator : α) (s : List α) : Option (List α × List α) :=
  match s.dropWhile (· != separator) with
  | [] => none
  | _ :: rest => some (s.takeWhile (· != separator), rest)

/-- The fields are one more than the separators. -/
theorem length_fields (separator : α) (s : List α) :
    (fields separator s).length = s.count separator + 1 := by
  induction s with
  | nil => rfl
  | cons c rest ih =>
      unfold fields
      split
      · rename_i h
        simp [ih, h]
      · rename_i h
        split
        · rename_i first others heq
          rw [heq] at ih
          rw [List.count_cons_of_ne h]
          exact ih
        · rename_i heq
          rw [heq] at ih
          simp at ih

end Text
end Retrace
