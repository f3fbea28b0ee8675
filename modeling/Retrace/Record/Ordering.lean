import Retrace.Record.Basic
import Retrace.Text.Lowercase

/-!
# Dependency order of a record tree

The objects of a tree below its root are arranged so that every object stands after the objects
directly inside it.  Of the objects that can stand next the one with the least number is taken, so
the arrangement is the same in every run.  A position in it, together with the class, gives an
object its name.

Main results:

- Theorem `nodup_arrange`: no number stands twice in an arrangement.
- Theorem `lt_of_mem_arrange`: an arrangement holds only the numbers that it arranges.
-/

namespace Retrace

namespace Node

mutual

/-- The objects in a node by number, the first of them having the number `first`. -/
def occurrences (first : Nat) : Node → List Occurrence
  | .primitive _ => []
  | .list items => occurrencesItems first items
  | .map entries => occurrencesFields first entries
  | .object kind className configurable configured recorded =>
      ⟨⟨kind, className, configurable, configured, recorded⟩, first + 1⟩ ::
        (occurrencesFields (first + 1) configured ++
          occurrencesFields (first + 1 + objectsFields configured) recorded)

/-- The objects in the items of a list. -/
def occurrencesItems (first : Nat) : List Node → List Occurrence
  | [] => []
  | n :: rest => n.occurrences first ++ occurrencesItems (first + n.objects) rest

/-- The objects in fields. -/
def occurrencesFields (first : Nat) : List (String × Node) → List Occurrence
  | [] => []
  | (_, n) :: rest => n.occurrences first ++ occurrencesFields (first + n.objects) rest

end

mutual

/-- The numbers of the objects of a node that lie inside no other object of it. -/
def outermost (first : Nat) : Node → List Nat
  | .primitive _ => []
  | .list items => outermostItems first items
  | .map entries => outermostFields first entries
  | .object .. => [first]

/-- The numbers of the outermost objects in the items of a list. -/
def outermostItems (first : Nat) : List Node → List Nat
  | [] => []
  | n :: rest => n.outermost first ++ outermostItems (first + n.objects) rest

/-- The numbers of the outermost objects in fields. -/
def outermostFields (first : Nat) : List (String × Node) → List Nat
  | [] => []
  | (_, n) :: rest => n.outermost first ++ outermostFields (first + n.objects) rest

end

end Node

/-- The objects below the root of a tree by number. -/
def Record.occurrences (r : Record) : List Occurrence :=
  Node.occurrencesFields 0 r.fields

/-- The numbers of the objects directly inside an object. -/
def Occurrence.direct (o : Occurrence) : List Nat :=
  Node.outermostFields o.first o.record.fields

/-! ## Arranging -/

/-- The least number that does not stand in the arrangement yet and all of whose dependencies do. -/
def nextReady (dependencies : List (List Nat)) (done : List Nat) : Option Nat :=
  (List.range dependencies.length).find? fun n =>
    !done.contains n && (dependencies[n]?.getD []).all done.contains

/-- Continue an arrangement by at most `steps` numbers, as long as one is ready. -/
def arrangeFrom (dependencies : List (List Nat)) (done : List Nat) : Nat → List Nat
  | 0 => done
  | steps + 1 =>
      match nextReady dependencies done with
      | some n => arrangeFrom dependencies (done ++ [n]) steps
      | none => done

/-- Arrange numbers so that each stands after its dependencies, the least ready one first. -/
def arrange (dependencies : List (List Nat)) : List Nat :=
  arrangeFrom dependencies [] dependencies.length

/-! ## Orders of trees -/

/-- The objects of a tree in dependency order. -/
structure DependencyOrder where
  /-- the objects by number -/
  occurrences : List Occurrence
  /-- the numbers in dependency order -/
  sequence : List Nat

/-- The part of a class name after its last point or colon. -/
def shortClassName (className : String) : List Char :=
  (className.toList.reverse.takeWhile fun c => c != '.' && c != ':').reverse

/-- The name of an object: its short class name in lower case and its position. -/
def componentName (className : String) (position : Nat) : String :=
  String.ofList (Text.lowercase (shortClassName className) ++ '-' :: Decimal.natDigits position)

namespace DependencyOrder

/-- Order the objects below the root of a tree. -/
def ofRecord (root : Record) : DependencyOrder where
  occurrences := root.occurrences
  sequence := arrange (root.occurrences.map Occurrence.direct)

/-- The number of objects. -/
def size (o : DependencyOrder) : Nat :=
  o.sequence.length

/-- The object at a position. -/
def get? (o : DependencyOrder) (position : Nat) : Option Occurrence :=
  (o.sequence[position]?).bind fun n => o.occurrences[n]?

/-- The position of the object with a number. -/
def positionOfNumber? (o : DependencyOrder) (number : Nat) : Option Nat :=
  o.sequence.idxOf? number

/-- The position of an object of the tree; the root has none. -/
def positionOf? (o : DependencyOrder) (occurrence : Occurrence) : Option Nat :=
  occurrence.number?.bind o.positionOfNumber?

/-- The positions of the objects directly inside an object. -/
def dependencies (o : DependencyOrder) (occurrence : Occurrence) : List Nat :=
  occurrence.direct.filterMap o.positionOfNumber?

/-- The objects with their positions. -/
def rows (o : DependencyOrder) : List (Nat × Occurrence) :=
  (List.range o.size).filterMap fun p => (o.get? p).map fun occurrence => (p, occurrence)

/-- The name of an object of the tree. -/
def nameOf? (o : DependencyOrder) (occurrence : Occurrence) : Option String :=
  (o.positionOf? occurrence).map (componentName occurrence.record.className)

end DependencyOrder

/-! ## Laws -/

theorem nextReady_spec {dependencies : List (List Nat)} {done : List Nat} {n : Nat}
    (h : nextReady dependencies done = some n) : n < dependencies.length ∧ n ∉ done := by
  have hmem := List.mem_of_find?_eq_some h
  have hp := List.find?_some h
  simp only [List.mem_range] at hmem
  simp only [Bool.and_eq_true, Bool.not_eq_true', List.contains_eq_mem,
    decide_eq_false_iff_not] at hp
  exact ⟨hmem, hp.1⟩

theorem arrangeFrom_spec {dependencies : List (List Nat)} {done : List Nat} (steps : Nat)
    (hnodup : done.Nodup) (hlt : ∀ n ∈ done, n < dependencies.length) :
    (arrangeFrom dependencies done steps).Nodup ∧
      ∀ n ∈ arrangeFrom dependencies done steps, n < dependencies.length := by
  induction steps generalizing done with
  | zero => exact ⟨hnodup, hlt⟩
  | succ steps ih =>
      unfold arrangeFrom
      split
      · rename_i n hn
        obtain ⟨hbound, hnew⟩ := nextReady_spec hn
        apply ih
        · rw [List.nodup_append]
          refine ⟨hnodup, by simp, ?_⟩
          intro a ha b hb
          simp only [List.mem_singleton] at hb
          rintro rfl
          exact hnew (hb ▸ ha)
        · intro m hm
          rcases List.mem_append.1 hm with hm | hm
          · exact hlt m hm
          · simp only [List.mem_singleton] at hm
            exact hm ▸ hbound
      · exact ⟨hnodup, hlt⟩

/-- No number stands twice in an arrangement. -/
theorem nodup_arrange (dependencies : List (List Nat)) : (arrange dependencies).Nodup :=
  (arrangeFrom_spec _ List.nodup_nil (by simp)).1

/-- An arrangement holds only the numbers that it arranges. -/
theorem lt_of_mem_arrange {dependencies : List (List Nat)} {n : Nat}
    (h : n ∈ arrange dependencies) : n < dependencies.length :=
  (arrangeFrom_spec _ List.nodup_nil (by simp)).2 n h

end Retrace
