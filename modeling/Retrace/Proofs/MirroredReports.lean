import Retrace.Proofs.UnalignedLists

/-!
# Comparing in the other direction

Two trees may be compared in either direction.  The report of one direction is the mirror image of
that of the other: it has the same keys at every depth and the same items, with the two texts and
the two kinds exchanged and with everything that stands on one side only on the other side.  Where
the comparison stops it does so in both directions, at the same place; the keys are passed in one
order whichever side they are on, so it is also the same place that is met first.

Main results:

- Theorem `mirror_oneSided`: what stands on one side is mirrored to the other side.
- Theorem `compareNodes_mirror`: comparing two nodes in the other direction gives the mirror image.
- Theorem `compareTrees_mirror`: so does comparing two trees.
-/

namespace Retrace

/-- The other side. -/
def Side.other : Side → Side
  | .left => .right
  | .right => .left

namespace Difference

/-! ## Mirror images -/

mutual

/-- A difference with its two sides exchanged. -/
def mirror : Difference → Difference
  | .changed left right => .changed right left
  | .only side text => .only side.other text
  | .nested entries => .nested (mirrorEntries entries)
  | .items parts => .items (mirrorItems parts)
  | .kinds left right => .kinds right left

/-- A report with its two sides exchanged. -/
def mirrorEntries : List (String × Difference) → List (String × Difference)
  | [] => []
  | (key, d) :: rest => (key, d.mirror) :: mirrorEntries rest

/-- The differences of list items with their two sides exchanged. -/
def mirrorItems : List Difference → List Difference
  | [] => []
  | d :: rest => d.mirror :: mirrorItems rest

end

/-- An obstacle with its two sides exchanged. -/
def Obstacle.mirror : Obstacle → Obstacle
  | .root kind => .root kind
  | .lengths left right => .lengths right left

/-- A fault with its two sides exchanged; its path stays. -/
def Fault.mirror (fault : Fault) : Fault :=
  ⟨fault.path, fault.obstacle.mirror⟩

/-- What a comparison comes to with its two sides exchanged, results by `f`. -/
def mirrorResult {β : Type} (f : β → β) : Except Fault β → Except Fault β
  | .ok found => .ok (f found)
  | .error fault => .error fault.mirror

/-- The entries of a report are mirrored one by one. -/
theorem mirrorEntries_eq_map (report : Report) :
    mirrorEntries report = report.map fun e => (e.1, e.2.mirror) := by
  induction report with
  | nil => rfl
  | cons e rest ih => rw [mirrorEntries, List.map_cons, ih]

/-- The items of a list are mirrored one by one. -/
theorem mirrorItems_eq_map (items : List Difference) : mirrorItems items = items.map mirror := by
  induction items with
  | nil => rfl
  | cons d rest ih => rw [mirrorItems, List.map_cons, ih]

/-! ## One side only -/

mutual

/-- What stands on one side is mirrored to the other side. -/
theorem mirror_oneSided (side : Side) :
    (n : Node) → (oneSided side n).mirror = oneSided side.other n
  | .primitive value => rfl
  | .list [] => rfl
  | .list (n :: rest) => by
      rw [oneSided, oneSided, mirror, mirrorItems_oneSided side (n :: rest)]
  | .map [] => rfl
  | .map (e :: rest) => by
      rw [oneSided, oneSided, mirror, mirrorEntries_oneSided side [] (e :: rest)]
  | .object kind className configurable configured recorded => by
      have hconfigured := mirrorEntries_oneSided side recorded configured
      have hrecorded := mirrorEntries_oneSided side [] recorded
      rw [mirrorEntries_eq_map] at hconfigured hrecorded
      rw [oneSided, oneSided, mirror, mirrorEntries_eq_map, ← Keyed.ofList_map, List.map_cons,
        List.map_append, hconfigured, hrecorded, mirror]

/-- The items of one side are mirrored to the other. -/
theorem mirrorItems_oneSided (side : Side) :
    (items : List Node) →
      mirrorItems (oneSidedItems side items) = oneSidedItems side.other items
  | [] => rfl
  | n :: rest => by
      rw [oneSidedItems, oneSidedItems, mirrorItems, mirror_oneSided side n,
        mirrorItems_oneSided side rest]

/-- The fields of one side are mirrored to the other. -/
theorem mirrorEntries_oneSided (side : Side) (later : Fields) :
    (fields : List (String × Node)) →
      mirrorEntries (oneSidedFields side later fields) = oneSidedFields side.other later fields
  | [] => rfl
  | (key, n) :: rest => by
      rw [oneSidedFields, oneSidedFields]
      split
      · exact mirrorEntries_oneSided side later rest
      · rw [mirrorEntries, mirror_oneSided side n, mirrorEntries_oneSided side later rest]

end

/-! ## Both sides -/

/-- Primitives are compared the other way round. -/
theorem comparePrimitives_mirror (x y : Primitive) :
    comparePrimitives y x = (comparePrimitives x y).map mirror := by
  unfold comparePrimitives
  by_cases h : x.render = y.render
  · rw [if_pos h, if_pos h.symm]
    rfl
  · rw [if_neg h, if_neg (Ne.symm h)]
    rfl

/-- Two parts that are compared one after the other are mirrored if both of them are. -/
theorem mirrorResult_bind {β γ δ : Type} {f : β → β} {k : γ → γ} {h : δ → δ} {g : β → γ → δ}
    (hg : ∀ b c, g (f b) (k c) = h (g b c)) (x : Except Fault β) (y : Except Fault γ) :
    ((mirrorResult f x).bind fun b => (mirrorResult k y).map (g b)) =
      mirrorResult h (x.bind fun b => y.map (g b)) := by
  cases x with
  | error fault => rfl
  | ok b =>
      cases y with
      | error fault => rfl
      | ok c => exact congrArg Except.ok (hg b c)

/-- Mirrored outcomes make the mirrored report. -/
theorem collect_mirror (outcomes : List (String × Outcome)) :
    collect (outcomes.map fun e => (e.1, mirrorResult (Option.map mirror) e.2)) =
      mirrorResult mirrorEntries (collect outcomes) := by
  induction outcomes with
  | nil => rfl
  | cons e rest ih =>
      rw [List.map_cons, collect_cons, collect_cons, ih]
      apply mirrorResult_bind
      intro found report
      cases found <;> simp [mirrorEntries_eq_map]

/-- Whether comparing a node with any other in the other direction gives the mirror image. -/
def Mirrored (n : Node) : Prop :=
  ∀ path m, compareNodes path m n = mirrorResult (Option.map mirror) (compareNodes path n m)

/-- The outcomes by key are mirrored if those of the nodes of the left side are. -/
theorem outcomesByKey_mirror (path : String) {ns ms : Fields} (h : ∀ e ∈ ns, Mirrored e.2) :
    outcomesByKey path (ms, ns) =
      (outcomesByKey path (ns, ms)).map fun e => (e.1, mirrorResult (Option.map mirror) e.2) := by
  apply (ascending_outcomesByKey path (ms, ns)).eq_of_lookup
    ((ascending_outcomesByKey path (ns, ms)).map fun _ => mirrorResult (Option.map mirror))
  intro key
  rw [Keyed.lookup_map fun _ => mirrorResult (Option.map mirror), lookup_outcomesByKey,
    lookup_outcomesByKey, sidesAt, sidesAt]
  cases hleft : Keyed.lookupLast key ns with
  | some n =>
      cases Keyed.lookupLast key ms with
      | some m => exact congrArg some (h (key, n) (Keyed.mem_of_lookupLast hleft) _ m)
      | none => simp [compareAt, mirrorResult, mirror_oneSided, Side.other]
  | none =>
      cases Keyed.lookupLast key ms with
      | some m => simp [compareAt, mirrorResult, mirror_oneSided, Side.other]
      | none => rfl

/-- Lists are compared the other way round. -/
theorem compareItems_mirror {xs : List Node} (h : ∀ x ∈ xs, Mirrored x) (path : String)
    (index : Nat) (ys : List Node) :
    compareItems path index ys xs = mirrorResult mirrorItems (compareItems path index xs ys) := by
  induction xs generalizing index ys with
  | nil => cases ys <;> rfl
  | cons x xs ih =>
      cases ys with
      | nil => rfl
      | cons y ys =>
          rw [List.forall_mem_cons] at h
          rw [compareItems_cons, compareItems_cons, h.1, ih h.2]
          apply mirrorResult_bind
          intro found items
          cases found <;> simp [mirrorItems_eq_map]

/-- A report is mirrored before or after it is nested. -/
theorem map_nestedUnlessEmpty_mirror (r : Except Fault Report) :
    (mirrorResult mirrorEntries r).map nestedUnlessEmpty =
      mirrorResult (Option.map mirror) (r.map nestedUnlessEmpty) := by
  cases r with
  | error fault => rfl
  | ok report => cases report <;> rfl

/-- Comparing two nodes in the other direction gives the mirror image. -/
theorem compareNodes_mirror (n : Node) : Mirrored n := by
  induction n using Node.innerInduction with
  | step n ih =>
      intro path m
      have hcompared := compared path n m
      generalize compareNodes path n m = outcome at hcompared ⊢
      cases hcompared with
      | kinds h =>
          rw [compareNodes_of_kindName_ne h.symm]
          rfl
      | primitives x y =>
          rw [compareNodes, comparePrimitives_mirror]
          rfl
      | lengths h =>
          rw [compareNodes, if_neg h.symm]
          rfl
      | @items xs ys h =>
          rw [compareNodes, if_pos h.symm, @compareItems_mirror xs ih]
          cases compareItems path 0 xs ys with
          | error fault => rfl
          | ok items => cases items <;> rfl
      | @children _ _ ns ms h hn hm =>
          have hinner : ∀ e ∈ ns, Mirrored e.2 := fun e he =>
            ih e.2 (Node.mem_inner_of_children hn he)
          rw [compareNodes_of_children h.symm hm hn, outcomesByKey_mirror path hinner,
            collect_mirror, map_nestedUnlessEmpty_mirror]

/-- Comparing two objects or maps in the other direction gives the mirror image of the report; if
the comparison stops, then in both directions with the same path and the two lengths exchanged. -/
theorem compareTrees_mirror {left right : Node} (hleft : ¬Keyless left) (hright : ¬Keyless right) :
    compareTrees right left = mirrorResult mirrorEntries (compareTrees left right) ∧
      ∀ fault, compareTrees left right = .error fault → ∃ path l r,
        fault = ⟨path, .lengths l r⟩ ∧ compareTrees right left = .error ⟨path, .lengths r l⟩ := by
  obtain ⟨ls, hls⟩ := exists_children hleft
  obtain ⟨rs, hrs⟩ := exists_children hright
  have hmirror : compareTrees right left =
      mirrorResult mirrorEntries (compareTrees left right) := by
    rw [compareTrees_eq_collect hls hrs, compareTrees_eq_collect hrs hls,
      outcomesByKey_mirror "" fun e _ => compareNodes_mirror e.2, collect_mirror]
  refine ⟨hmirror, ?_⟩
  intro fault hfault
  have hblames := blames_compareTrees hleft hright
  rw [hfault] at hblames hmirror
  obtain ⟨position, l, r, -, rfl, -⟩ := hblames
  exact ⟨pathFrom "" position, l, r, rfl, hmirror⟩

/-- A report on a map and an object with a text, a value of one side and two kinds, in the other
direction. -/
theorem compareTrees_mirror_mixed :
    let left := Node.map [("gamma", .long 1), ("note", .text "old"), ("shape", .list [])]
    let right := Node.object .component "Grid" false [("gamma", .long 2), ("shape", .map [])] []
    ¬Keyless left ∧ ¬Keyless right ∧
      compareTrees left right = .ok [("class-name", .only .right "Grid"),
        ("gamma", .changed "1" "2"), ("note", .only .left "old"), ("shape", .kinds "list" "map")] ∧
      compareTrees right left = .ok [("class-name", .only .left "Grid"),
        ("gamma", .changed "2" "1"), ("note", .only .right "old"),
        ("shape", .kinds "map" "list")] := by
  intro left right
  have hforward : compareTrees left right = .ok [("class-name", .only .right "Grid"),
      ("gamma", .changed "1" "2"), ("note", .only .left "old"),
      ("shape", .kinds "list" "map")] := by rfl
  obtain ⟨hmirror, -⟩ := @compareTrees_mirror left right id id
  rw [hforward] at hmirror
  exact ⟨id, id, hforward, hmirror⟩

end Difference
end Retrace
