import Retrace.Proofs.ComparedNodes

/-!
# Where a comparison stops

A comparison stops where both sides hold lists of different lengths.  Such a place is reached from
the two roots through keys that both sides have, through the items of lists of one length, and
through maps and objects of one kind; what stands below nodes of different kinds, or on one side
only, is not looked at.  Its position is the list of the keys and indices on the way, and positions
are passed in the order of their first steps, keys by their order and items by their index.  The
comparison stops at the first one, and the fault tells its path and the two lengths.

Main results:

- Theorem `Blames.bind`: of two parts that are compared one after the other, the first one that
  stops is blamed.
- Theorem `blames_compareNodes`: the comparison of two nodes stops at the first unaligned position.
- Theorem `compareTrees_stops`: when the comparison of two trees stops, and with which fault.
-/

namespace Retrace
namespace Difference

/-! ## Positions -/

/-- A step from a node to one of its inner nodes. -/
inductive Step where
  | key (name : String)
  | item (index : Nat)

/-- The path to a node with one more step. -/
def Step.extend (path : String) : Step → String
  | .key name => childPath path name
  | .item index => itemPath path index

/-- Whether a step is made before another one from the same node. -/
inductive Step.Before : Step → Step → Prop
  | key {k l : String} (h : k < l) : Before (.key k) (.key l)
  | item {i j : Nat} (h : i < j) : Before (.item i) (.item j)

/-- The path to a position, from the path of the node where its steps begin. -/
def pathFrom (path : String) (position : List Step) : String :=
  position.foldl Step.extend path

mutual

/-- Whether two nodes hold lists of different lengths at a position, and their lengths. -/
inductive Unaligned : Node → Node → List Step → Nat → Nat → Prop where
  | here {xs ys : List Node} (lengths : xs.length ≠ ys.length) :
      Unaligned (.list xs) (.list ys) [] xs.length ys.length
  | item {xs ys : List Node} {index : Nat} {x y : Node} {position : List Step} {l r : Nat}
      (lengths : xs.length = ys.length) (left : xs[index]? = some x) (right : ys[index]? = some y)
      (inside : Unaligned x y position l r) :
      Unaligned (.list xs) (.list ys) (.item index :: position) l r
  | child {n m : Node} {ns ms : Fields} {position : List Step} {l r : Nat}
      (kind : n.kindName = m.kindName) (left : children? n = some ns)
      (right : children? m = some ms) (inside : UnalignedUnder (ns, ms) position l r) :
      Unaligned n m position l r

/-- Whether the nodes of a key that both sides have hold lists of different lengths at a
position. -/
inductive UnalignedUnder : Fields × Fields → List Step → Nat → Nat → Prop where
  | key {fields : Fields × Fields} {key : String} {x y : Node} {position : List Step} {l r : Nat}
      (left : Keyed.lookupLast key fields.1 = some x)
      (right : Keyed.lookupLast key fields.2 = some y) (inside : Unaligned x y position l r) :
      UnalignedUnder fields (.key key :: position) l r

end

/-- Nodes of different kinds have no unaligned lists. -/
theorem not_unaligned_of_kindName_ne {n m : Node} (h : n.kindName ≠ m.kindName)
    (position : List Step) (l r : Nat) : ¬Unaligned n m position l r := by
  intro hunaligned
  cases hunaligned with
  | here => exact h rfl
  | item => exact h rfl
  | child kind => exact h kind

theorem not_unaligned_primitive (x : Primitive) (m : Node) (position : List Step) (l r : Nat) :
    ¬Unaligned (.primitive x) m position l r := by
  intro hunaligned
  cases hunaligned with
  | child kind left right inside => simp [children?] at left

/-- Lists of different lengths are not looked into. -/
theorem unaligned_lengths {xs ys : List Node} (h : xs.length ≠ ys.length) {position : List Step}
    {l r : Nat} (hunaligned : Unaligned (.list xs) (.list ys) position l r) : position = [] := by
  cases hunaligned with
  | here => rfl
  | item lengths => exact absurd lengths h
  | child kind left right inside => simp [children?] at left

/-- In lists of one length an unaligned list lies in an item. -/
theorem unaligned_items_iff {xs ys : List Node} (h : xs.length = ys.length) {position : List Step}
    {l r : Nat} :
    Unaligned (.list xs) (.list ys) position l r ↔
      ∃ index x y rest, xs[index]? = some x ∧ ys[index]? = some y ∧
        position = .item index :: rest ∧ Unaligned x y rest l r := by
  constructor
  · intro hunaligned
    cases hunaligned with
    | here lengths => exact absurd h lengths
    | item lengths left right inside => exact ⟨_, _, _, _, left, right, rfl, inside⟩
    | child kind left right inside => simp [children?] at left
  · rintro ⟨index, x, y, rest, left, right, rfl, inside⟩
    exact .item h left right inside

/-- In nodes of one kind an unaligned list lies under a key. -/
theorem unaligned_children_iff {n m : Node} {ns ms : Fields} (kind : n.kindName = m.kindName)
    (hn : children? n = some ns) (hm : children? m = some ms) {position : List Step} {l r : Nat} :
    Unaligned n m position l r ↔ UnalignedUnder (ns, ms) position l r := by
  constructor
  · intro hunaligned
    cases hunaligned with
    | here => simp [children?] at hn
    | item => simp [children?] at hn
    | child kind left right inside =>
        rw [hn, Option.some.injEq] at left
        rw [hm, Option.some.injEq] at right
        rw [left, right]
        exact inside
  · exact .child kind hn hm

/-! ## The first position -/

/-- Whether a comparison is complete if there is no unaligned position, and otherwise stops with the
fault of the first one. -/
def Blames {β : Type} (path : String) (unaligned : List Step → Nat → Nat → Prop) :
    Except Fault β → Prop
  | .ok _ => ∀ position l r, ¬unaligned position l r
  | .error fault => ∃ position l r, unaligned position l r ∧
      fault = ⟨pathFrom path position, .lengths l r⟩ ∧
      ∀ other l' r', unaligned other l' r' →
        other = position ∨ List.Lex Step.Before position other

namespace Blames

variable {β γ δ : Type} {path : String} {unaligned unaligned' : List Step → Nat → Nat → Prop}

theorem congr {x : Except Fault β} (h : Blames path unaligned x)
    (heq : ∀ {position l r}, unaligned' position l r ↔ unaligned position l r) :
    Blames path unaligned' x := by
  have hsame : unaligned' = unaligned := by
    funext position l r
    exact propext heq
  rw [hsame]
  exact h

/-- What is made of a result does not matter to the blame. -/
theorem map {x : Except Fault β} (h : Blames path unaligned x) (f : β → γ) :
    Blames path unaligned (x.map f) := by
  cases x with
  | error fault => exact h
  | ok found => exact h

/-- Of two parts that are compared one after the other, the first one that stops is blamed: all
positions of the first part are behind one step, and those of the second part are behind steps that
are made later. -/
theorem bind {step : Step} {first rest : List Step → Nat → Nat → Prop} {x : Except Fault β}
    {y : Except Fault γ} (hx : Blames (step.extend path) first x) (hy : Blames path rest y)
    (hlater : ∀ {position l r}, rest position l r →
      ∃ s tail, position = s :: tail ∧ step.Before s) (f : β → γ → δ) :
    Blames path
      (fun position l r => (∃ tail, position = step :: tail ∧ first tail l r) ∨ rest position l r)
      (x.bind fun b => y.map (f b)) := by
  cases x with
  | error fault =>
      obtain ⟨tail, l, r, hfirst, hfault, hleast⟩ := hx
      refine ⟨step :: tail, l, r, .inl ⟨tail, rfl, hfirst⟩, hfault, ?_⟩
      -- another position is behind the same step, where `tail` is the first, or behind a later one
      rintro other l' r' (⟨tail', rfl, hother⟩ | hother)
      · rcases hleast tail' l' r' hother with rfl | hlex
        · exact .inl rfl
        · exact .inr (.cons hlex)
      · obtain ⟨s, tail', rfl, hbefore⟩ := hlater hother
        exact .inr (.rel hbefore)
  | ok b =>
      cases y with
      | error fault =>
          obtain ⟨position, l, r, hrest, hfault, hleast⟩ := hy
          refine ⟨position, l, r, .inr hrest, hfault, ?_⟩
          rintro other l' r' (⟨tail, rfl, hother⟩ | hother)
          · exact absurd hother (hx tail l' r')
          · exact hleast other l' r' hother
      | ok c =>
          rintro position l r (⟨tail, rfl, hother⟩ | hother)
          · exact hx tail l r hother
          · exact hy position l r hother

end Blames

/-! ## Keys and items -/

/-- Collecting outcomes in key order stops at the first position under the first key that has
one. -/
theorem blames_collect {path : String} {unaligned : String → List Step → Nat → Nat → Prop}
    {outcomes : List (String × Outcome)} (hascending : Keyed.Ascending outcomes)
    (h : ∀ e ∈ outcomes, Blames (childPath path e.1) (unaligned e.1) e.2) :
    Blames path (fun position l r => ∃ e ∈ outcomes, ∃ tail, position = .key e.1 :: tail ∧
      unaligned e.1 tail l r) (collect outcomes) := by
  induction outcomes with
  | nil => simp [collect, Blames]
  | cons e rest ih =>
      obtain ⟨key, outcome⟩ := e
      rw [List.forall_mem_cons] at h
      have hfirst : Blames ((Step.key key).extend path) (unaligned key) outcome := h.1
      have hlater : ∀ {position l r}, (∃ e ∈ rest, ∃ tail, position = .key e.1 :: tail ∧
          unaligned e.1 tail l r) → ∃ s tail, position = s :: tail ∧ (Step.key key).Before s := by
        rintro position l r ⟨e, he, tail, rfl, -⟩
        exact ⟨.key e.1, tail, rfl, .key (hascending.1 e he)⟩
      rw [collect_cons]
      apply (hfirst.bind (ih hascending.2 h.2) hlater _).congr
      intro position l r
      simp only [List.mem_cons, exists_eq_or_imp]

/-- Whether comparing a node with any other stops at the first unaligned position. -/
def Blaming (n : Node) : Prop :=
  ∀ path m, Blames path (Unaligned n m) (compareNodes path n m)

/-- Items are compared up to the first position in the first two items that have one. -/
theorem blames_compareItems {xs : List Node} (h : ∀ x ∈ xs, Blaming x) (path : String)
    (start : Nat) (ys : List Node) :
    Blames path (fun position l r => ∃ index x y tail, xs[index]? = some x ∧ ys[index]? = some y ∧
      position = .item (start + index) :: tail ∧ Unaligned x y tail l r)
      (compareItems path start xs ys) := by
  induction xs generalizing start ys with
  | nil => simp [compareItems, Blames]
  | cons x xs ih =>
      cases ys with
      | nil => simp [compareItems, Blames]
      | cons y ys =>
          rw [List.forall_mem_cons] at h
          have hfirst : Blames ((Step.item start).extend path) (Unaligned x y)
              (compareNodes (itemPath path start) x y) := h.1 _ y
          rw [compareItems_cons]
          apply (hfirst.bind (ih h.2 (start + 1) ys) _ _).congr
          · -- an index counts from `start` here and from `start + 1` in the rest
            intro position l r
            constructor
            · rintro ⟨index, u, v, tail, hu, hv, rfl, inside⟩
              cases index with
              | zero =>
                  rw [List.getElem?_cons_zero, Option.some.injEq] at hu hv
                  subst hu hv
                  exact .inl ⟨tail, rfl, inside⟩
              | succ index =>
                  rw [List.getElem?_cons_succ] at hu hv
                  rw [← Nat.add_assoc, Nat.add_right_comm]
                  exact .inr ⟨index, u, v, tail, hu, hv, rfl, inside⟩
            · rintro (⟨tail, rfl, inside⟩ | ⟨index, u, v, tail, hu, hv, rfl, inside⟩)
              · exact ⟨0, x, y, tail, rfl, rfl, rfl, inside⟩
              · rw [Nat.add_right_comm]
                exact ⟨index + 1, u, v, tail, hu, hv, rfl, inside⟩
          · rintro position l r ⟨index, u, v, tail, -, -, rfl, -⟩
            exact ⟨_, tail, rfl, .item (by omega)⟩

/-- What comparing the nodes of a key gives stops at the first position of the key. -/
theorem blames_compareAt {path key : String} {fields : Fields × Fields}
    (h : ∀ e ∈ fields.1, Blaming e.2) :
    Blames (childPath path key) (fun position => UnalignedUnder fields (.key key :: position))
      (compareAt path key (sidesAt key fields)) := by
  rw [sidesAt]
  cases hleft : Keyed.lookupLast key fields.1 with
  | none =>
      have hnone : ∀ position l r, ¬UnalignedUnder fields (.key key :: position) l r := by
        rintro position l r ⟨left, -, -⟩
        simp [hleft] at left
      cases Keyed.lookupLast key fields.2 <;> exact hnone
  | some n =>
      cases hright : Keyed.lookupLast key fields.2 with
      | none =>
          rintro position l r ⟨-, right, -⟩
          simp [hright] at right
      | some m =>
          apply (h (key, n) (Keyed.mem_of_lookupLast hleft) _ m).congr
          intro position l r
          constructor
          · rintro ⟨left, right, inside⟩
            rw [hleft, Option.some.injEq] at left
            rw [hright, Option.some.injEq] at right
            rw [left, right]
            exact inside
          · exact .key hleft hright

/-- One pass over the keys of both sides stops at the first position under them. -/
theorem blames_outcomesByKey {path : String} {fields : Fields × Fields}
    (h : ∀ e ∈ fields.1, Blaming e.2) :
    Blames path (UnalignedUnder fields) (collect (outcomesByKey path fields)) := by
  have houtcomes : ∀ e ∈ outcomesByKey path fields, Blames (childPath path e.1)
      (fun position => UnalignedUnder fields (.key e.1 :: position)) e.2 := by
    intro e he
    obtain ⟨f, -, rfl⟩ := List.mem_map.1 he
    exact blames_compareAt h
  apply (@blames_collect path (fun name position => UnalignedUnder fields (.key name :: position))
    _ (ascending_outcomesByKey path fields) houtcomes).congr
  intro position l r
  constructor
  · intro hunaligned
    cases hunaligned with
    | @key _ key x y tail _ _ left right inside =>
        have hlookup : Keyed.lookup key (outcomesByKey path fields) =
            some (compareAt path key (sidesAt key fields)) := by
          rw [lookup_outcomesByKey]
          simp [sidesAt, right]
        exact ⟨_, Keyed.mem_of_lookup hlookup, tail, rfl, .key left right inside⟩
  · rintro ⟨e, -, tail, rfl, inside⟩
    exact inside

/-! ## Trees -/

/-- The comparison of two nodes stops at the first unaligned position. -/
theorem blames_compareNodes (n : Node) : Blaming n := by
  induction n using Node.innerInduction with
  | step n ih =>
      intro path m
      have hcompared := compared path n m
      generalize compareNodes path n m = outcome at hcompared ⊢
      cases hcompared with
      | kinds h => exact not_unaligned_of_kindName_ne h
      | primitives x y => exact not_unaligned_primitive x _
      | lengths h =>
          refine ⟨[], _, _, .here h, rfl, ?_⟩
          intro other l' r' hother
          exact .inl (unaligned_lengths h hother)
      | @items xs ys h =>
          apply Blames.map
          apply (@blames_compareItems xs ih path 0 ys).congr
          intro position l r
          rw [unaligned_items_iff h]
          simp only [Nat.zero_add]
      | @children _ _ ns ms h hn hm =>
          apply Blames.map
          have hinner : ∀ e ∈ ns, Blaming e.2 := fun e he =>
            ih e.2 (Node.mem_inner_of_children hn he)
          exact (@blames_outcomesByKey path (ns, ms) hinner).congr (unaligned_children_iff h hn hm)

/-- Whether a node is a primitive or a list, so that there are no keys in it. -/
def Keyless : Node → Prop
  | .primitive _ | .list _ => True
  | .map _ | .object .. => False

/-- Keyless nodes are those without fields. -/
theorem children?_eq_none_iff {n : Node} : children? n = none ↔ Keyless n := by
  cases n <;> simp [children?, Keyless]

/-- A node that is not keyless has fields. -/
theorem exists_children {n : Node} (h : ¬Keyless n) : ∃ ns, children? n = some ns := by
  rwa [← children?_eq_none_iff, ← ne_eq, Option.ne_none_iff_exists'] at h

/-- A root without fields on the left is refused. -/
theorem compareTrees_of_keyless_left {left : Node} (h : Keyless left) (right : Node) :
    compareTrees left right = .error ⟨"", .root left.kindName⟩ := by
  rw [compareTrees, children?_eq_none_iff.2 h]

theorem compareTrees_of_keyless_right {left right : Node} (hleft : ¬Keyless left)
    (h : Keyless right) : compareTrees left right = .error ⟨"", .root right.kindName⟩ := by
  obtain ⟨ls, hls⟩ := exists_children hleft
  rw [compareTrees, hls, children?_eq_none_iff.2 h]

/-- Whether two trees hold lists of different lengths at a position under their keys. -/
def UnalignedTrees (left right : Node) (position : List Step) (l r : Nat) : Prop :=
  ∃ ls rs, children? left = some ls ∧ children? right = some rs ∧
    UnalignedUnder (ls, rs) position l r

/-- The comparison of two trees stops at the first unaligned position under their keys. -/
theorem blames_compareTrees {left right : Node} (hleft : ¬Keyless left) (hright : ¬Keyless right) :
    Blames "" (UnalignedTrees left right) (compareTrees left right) := by
  obtain ⟨ls, hls⟩ := exists_children hleft
  obtain ⟨rs, hrs⟩ := exists_children hright
  rw [compareTrees_eq_collect hls hrs]
  have hkeys : ∀ e ∈ ls, Blaming e.2 := fun e _ => blames_compareNodes e.2
  apply (@blames_outcomesByKey "" (ls, rs) hkeys).congr
  intro position l r
  unfold UnalignedTrees
  simp only [hls, hrs, Option.some.injEq, exists_and_left, exists_eq_left']

/-- The comparison of two trees stops exactly if one of them is a primitive or a list, or if they
hold lists of different lengths at some position.  The fault names the first root without keys, or
else the path to the first position and the two lengths that are found there. -/
theorem compareTrees_stops (left right : Node) :
    ((∃ fault, compareTrees left right = .error fault) ↔
      Keyless left ∨ Keyless right ∨ ∃ position l r, UnalignedTrees left right position l r) ∧
    ∀ fault, compareTrees left right = .error fault →
      (Keyless left ∧ fault = ⟨"", .root left.kindName⟩) ∨
      (¬Keyless left ∧ Keyless right ∧ fault = ⟨"", .root right.kindName⟩) ∨
      (¬Keyless left ∧ ¬Keyless right ∧ ∃ position l r,
        UnalignedTrees left right position l r ∧
        (∀ other l' r', UnalignedTrees left right other l' r' →
          other = position ∨ List.Lex Step.Before position other) ∧
        fault = ⟨pathFrom "" position, .lengths l r⟩ ∧
        fault.obstacle.message =
          "cannot align lists of length " ++ toString l ++ " and " ++ toString r) := by
  by_cases hleft : Keyless left
  · rw [compareTrees_of_keyless_left hleft]
    simp [hleft]
  · by_cases hright : Keyless right
    · rw [compareTrees_of_keyless_right hleft hright]
      simp [hleft, hright]
    · have hblames := blames_compareTrees hleft hright
      cases htrees : compareTrees left right with
      | ok report =>
          rw [htrees] at hblames
          have hnone : ¬∃ position l r, UnalignedTrees left right position l r := by
            rintro ⟨position, l, r, hposition⟩
            exact hblames position l r hposition
          simp [hleft, hright, hnone]
      | error fault =>
          rw [htrees] at hblames
          obtain ⟨position, l, r, hposition, rfl, hleast⟩ := hblames
          constructor
          · exact iff_of_true ⟨_, rfl⟩ (.inr (.inr ⟨position, l, r, hposition⟩))
          · rintro fault hfault
            rw [← Except.error.inj hfault]
            exact .inr (.inr ⟨hleft, hright, position, l, r, hposition, hleast, rfl, rfl⟩)

/-- Two trees with lists of different lengths in two places; the one under the first key is named,
inside the second of two items. -/
theorem compareTrees_stops_secondRow :
    let left := Node.map [("rows", .list [.long 1, .map [("names", .list [.text "a"])]]),
      ("steps", .list [])]
    let right := Node.map [("rows", .list [.long 2, .map [("names", .list [])]]),
      ("steps", .list [.long 1])]
    ∃ position, UnalignedTrees left right position 1 0 ∧ pathFrom "" position = "rows[1].names" ∧
      ∀ other l r, UnalignedTrees left right other l r →
        other = position ∨ List.Lex Step.Before position other := by
  intro left right
  have hfault : compareTrees left right = .error ⟨"rows[1].names", .lengths 1 0⟩ := by rfl
  rcases (compareTrees_stops left right).2 _ hfault with
    ⟨hkeyless, -⟩ | ⟨-, hkeyless, -⟩ | ⟨-, -, position, l, r, hposition, hleast, hplace, -⟩
  · exact absurd hkeyless id
  · exact absurd hkeyless id
  · rw [Fault.mk.injEq, Obstacle.lengths.injEq] at hplace
    obtain ⟨hpath, rfl, rfl⟩ := hplace
    exact ⟨position, hposition, hpath.symm, hleast⟩

end Difference
end Retrace
