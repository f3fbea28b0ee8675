import Retrace.Record.Basic

/-!
# Differences of record trees

Two trees are compared key by key, the class name of an object being one of its keys.  Primitives
under one key are compared by their text, objects of one kind and maps are compared inside, and
lists of one length item by item.  What stands on one side only is reported in full.  What does not
differ is not reported, so a report is empty if nothing differs.  Lists of different lengths cannot
be compared; of several such places the one that is first by key is named.

Main results:

- Theorem `collect_ascending`: the entries of a report stand in the order of their keys.
-/

namespace Retrace

/-- The two trees that are compared. -/
inductive Side where
  | left
  | right
deriving DecidableEq, Repr

/-- A difference under one key. -/
inductive Difference where
  /-- a primitive has two texts -/
  | changed (left right : String)
  /-- a primitive or an empty container stands on one side only -/
  | only (side : Side) (text : String)
  /-- the differences inside an object or a map, by key -/
  | nested (entries : List (String × Difference))
  /-- the differences of list items, without the items that do not differ -/
  | items (items : List Difference)
  /-- the two sides hold nodes of different kinds -/
  | kinds (left right : String)
deriving Repr

/-- The differences of two trees by key. -/
abbrev Report := List (String × Difference)

namespace Difference

/-- Why two trees cannot be compared. -/
inductive Obstacle where
  /-- a tree is a primitive or a list -/
  | root (kind : String)
  /-- two lists have different lengths -/
  | lengths (left right : Nat)
deriving DecidableEq, Repr

/-- An obstacle and the path to it. -/
structure Fault where
  path : String
  obstacle : Obstacle
deriving DecidableEq, Repr

/-- The sentence about an obstacle. -/
def Obstacle.message : Obstacle → String
  | .root kind => "cannot diff a " ++ kind ++ " at the root, expected an object or map"
  | .lengths m n => "cannot align lists of length " ++ toString m ++ " and " ++ toString n

/-- The path to a key. -/
def childPath (path key : String) : String :=
  if path.isEmpty then key else path ++ "." ++ key

/-- The path to a list item. -/
def itemPath (path : String) (index : Nat) : String :=
  path ++ "[" ++ toString index ++ "]"

/-! ## One side only -/

mutual

/-- A node that stands on one side only, in full. -/
def oneSided (side : Side) : Node → Difference
  | .primitive value => .only side value.render
  | .list [] => .only side "[]"
  | .list (n :: rest) => .items (oneSidedItems side (n :: rest))
  | .map [] => .only side "\x7b\x7d"
  | .map (e :: rest) => .nested (oneSidedFields side [] (e :: rest))
  | .object _ className _ configured recorded =>
      let inner := oneSidedFields side recorded configured ++ oneSidedFields side [] recorded
      .nested (Keyed.ofList (("class-name", .only side className) :: inner))

/-- The items of a list that stands on one side only. -/
def oneSidedItems (side : Side) : List Node → List Difference
  | [] => []
  | n :: rest => oneSided side n :: oneSidedItems side rest

/-- The fields that stand on one side only, without those that a later field replaces. -/
def oneSidedFields (side : Side) (later : Fields) : List (String × Node) → Report
  | [] => []
  | (key, n) :: rest =>
      if Keyed.hasKey key rest || Keyed.hasKey key later then oneSidedFields side later rest
      else (key, oneSided side n) :: oneSidedFields side later rest

end

/-- The fields of a side whose keys the other side does not have. -/
def missingFrom (side : Side) (fields others : Fields) : Report :=
  oneSidedFields side [] (fields.filter fun e => !Keyed.hasKey e.1 others)

/-! ## Both sides -/

/-- What comparing a key gave: nothing, a difference, or a fault. -/
abbrev Outcome := Except Fault (Option Difference)

/-- Two primitives by their text. -/
def comparePrimitives (x y : Primitive) : Option Difference :=
  if x.render = y.render then none else some (.changed x.render y.render)

/-- The differences by key, or the first fault. -/
def collect : List (String × Outcome) → Except Fault Report
  | [] => .ok []
  | (key, outcome) :: rest =>
      match outcome with
      | .error fault => .error fault
      | .ok found =>
          match collect rest with
          | .error fault => .error fault
          | .ok report =>
              .ok (match found with
                | some difference => (key, difference) :: report
                | none => report)

/-- A report as a difference; an empty one is none. -/
def nestedUnlessEmpty (report : Report) : Option Difference :=
  if report.isEmpty then none else some (.nested report)

/-- The outcomes of both sides' keys in key order, collected. -/
def report (outcomes : List (String × Outcome)) (missing : Report) : Except Fault Report :=
  collect (Keyed.ofList (outcomes ++ missing.map fun e => (e.1, .ok (some e.2))))

/-- Compare a class name with the last value of its key. -/
def compareClassNames (className : String) (others : Fields) : String × Outcome :=
  ("class-name",
    match Keyed.lookupLast "class-name" others with
    | some (.primitive y) => .ok (comparePrimitives (.text className) y)
    | some m => .ok (some (.kinds "primitive" m.kindName))
    | none => .ok (some (.only .left className)))

/-- The report on an object, given the outcomes of its configured and its recorded fields. -/
def objectReport (r : Record) (others : Fields) (configured recorded : List (String × Outcome)) :
    Except Fault Report :=
  report (compareClassNames r.className others :: (configured ++ recorded))
    (missingFrom .right others r.children)

mutual

/-- Compare two nodes. -/
def compareNodes (path : String) : Node → Node → Outcome
  | .primitive x, .primitive y => .ok (comparePrimitives x y)
  | .list xs, .list ys =>
      if xs.length = ys.length then
        (compareItems path 0 xs ys).map fun items =>
          if items.isEmpty then none else some (.items items)
      else
        .error ⟨path, .lengths xs.length ys.length⟩
  | .map es, .map fs =>
      (report (compareFields path [] fs es) (missingFrom .right fs es)).map nestedUnlessEmpty
  | .object kind className configurable configured recorded, other =>
      match other.record? with
      | some s =>
          if kind = s.kind then
            (objectReport ⟨kind, className, configurable, configured, recorded⟩ s.children
              (compareFields path recorded s.children configured)
              (compareFields path [] s.children recorded)).map nestedUnlessEmpty
          else
            .ok (some (.kinds kind.name s.kind.name))
      | none => .ok (some (.kinds kind.name other.kindName))
  | x, y => .ok (some (.kinds x.kindName y.kindName))
termination_by structural n => n

/-- Compare the items of two lists of one length, from an index on. -/
def compareItems (path : String) (index : Nat) :
    List Node → List Node → Except Fault (List Difference)
  | x :: xs, y :: ys =>
      match compareNodes (itemPath path index) x y with
      | .error fault => .error fault
      | .ok found => (compareItems path (index + 1) xs ys).map fun items => found.toList ++ items
  | _, _ => .ok []
termination_by structural xs => xs

/-- Compare the fields that no later field replaces with the last value of their key. -/
def compareFields (path : String) (later others : Fields) :
    List (String × Node) → List (String × Outcome)
  | [] => []
  | (key, n) :: rest =>
      if Keyed.hasKey key rest || Keyed.hasKey key later then compareFields path later others rest
      else
        (key, match Keyed.lookupLast key others with
          | some m => compareNodes (childPath path key) n m
          | none => .ok (some (oneSided .left n))) :: compareFields path later others rest
termination_by structural es => es

end

/-- The children of an object or a map. -/
def children? : Node → Option Fields
  | .map entries => some entries
  | .object kind className configurable configured recorded =>
      some (Record.children ⟨kind, className, configurable, configured, recorded⟩)
  | _ => none

/-- The report on an object or a map against the children of another; nothing on other nodes. -/
def compareRoot : Node → Fields → Except Fault Report
  | .map es, others => report (compareFields "" [] others es) (missingFrom .right others es)
  | .object kind className configurable configured recorded, others =>
      objectReport ⟨kind, className, configurable, configured, recorded⟩ others
        (compareFields "" recorded others configured) (compareFields "" [] others recorded)
  | _, _ => .ok []

/-- Compare two trees, which are objects or maps. -/
def compareTrees (left right : Node) : Except Fault Report :=
  match children? left, children? right with
  | none, _ => .error ⟨"", .root left.kindName⟩
  | some _, none => .error ⟨"", .root right.kindName⟩
  | some _, some others => compareRoot left others

/-! ## Laws -/

theorem mem_collect {outcomes : List (String × Outcome)} {found : Report}
    (h : collect outcomes = .ok found) : ∀ e ∈ found, ∃ o ∈ outcomes, o.1 = e.1 := by
  induction outcomes generalizing found with
  | nil =>
      simp only [collect, Except.ok.injEq] at h
      simp [← h]
  | cons o rest ih =>
      obtain ⟨key, outcome⟩ := o
      unfold collect at h
      split at h
      · simp at h
      · split at h
        · simp at h
        · rename_i entries hentries
          have hrest := ih hentries
          simp only [Except.ok.injEq] at h
          intro e he
          subst h
          split at he
          · rcases List.mem_cons.1 he with rfl | he
            · exact ⟨_, List.mem_cons_self, rfl⟩
            · obtain ⟨o, ho, heq⟩ := hrest e he
              exact ⟨o, List.mem_cons_of_mem _ ho, heq⟩
          · obtain ⟨o, ho, heq⟩ := hrest e he
            exact ⟨o, List.mem_cons_of_mem _ ho, heq⟩

/-- The entries of a report stand in the order of their keys. -/
theorem collect_ascending {outcomes : List (String × Outcome)} {found : Report}
    (hasc : Keyed.Ascending outcomes) (h : collect outcomes = .ok found) :
    Keyed.Ascending found := by
  induction outcomes generalizing found with
  | nil =>
      simp only [collect, Except.ok.injEq] at h
      simp [← h, Keyed.Ascending]
  | cons o rest ih =>
      obtain ⟨key, outcome⟩ := o
      unfold collect at h
      split at h
      · simp at h
      · split at h
        · simp at h
        · rename_i entries hentries
          simp only [Except.ok.injEq] at h
          subst h
          split
          · refine ⟨fun e he => ?_, ih hasc.2 hentries⟩
            obtain ⟨o, ho, heq⟩ := mem_collect hentries e he
            exact heq ▸ hasc.1 o ho
          · exact ih hasc.2 hentries

end Difference
end Retrace
