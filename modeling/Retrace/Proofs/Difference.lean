import Retrace.Proofs.ExactReport

/-!
# Comparing trees

The comparison of two record trees meets its description: whenever it comes to a report the report
is exact, and it comes to an empty report exactly when the two roots look the same under every key.
A fault is met only where two lists of different lengths stand under one path, so trees that look
the same are always compared to the end.

Main results:

- Theorem `compareNodes_truthful`: what the comparison of two nodes says is exact.
- Theorem `compareTrees_exact`: the report on two trees is empty exactly when they look the same by
  key, and every report is exact.
-/

namespace Retrace
namespace Difference

/-! ## What a comparison says -/

/-- Nothing is said of nodes that look the same, and what is said of others is exact. -/
def Says (found : Option Difference) (s : Sides) : Prop :=
  match found with
  | none => ¬ Differs s
  | some d => Exact d s

/-- Whether every comparison with a node says what is exact. -/
def Truthful (n : Node) : Prop :=
  ∀ path m found, compareNodes path n m = .ok found → Says found (some n, some m)

/-- Whether a node is compared to the end with every node that looks the same. -/
def Conclusive (n : Node) : Prop :=
  ∀ path m, n.view = m.view → ∃ found, compareNodes path n m = .ok found

/-- Nothing is said exactly of what does not differ. -/
theorem Says.eq_none_iff {found : Option Difference} {s : Sides} (h : Says found s) :
    found = none ↔ ¬ Differs s := by
  cases found with
  | none => exact iff_of_true rfl h
  | some d => simpa using differs_of_exact h

/-- A report in which no key occurs twice is exact if what it says under every key is. -/
theorem exactReport_of_lookup {report : Report} {fields : Fields × Fields}
    (hnodup : (report.map Prod.fst).Nodup)
    (h : ∀ key, Says (Keyed.lookup key report) (sidesAt key fields)) :
    ExactReport report fields := by
  refine .intro (fun key => ?_) (fun e he => ?_)
  · rw [Keyed.hasKey_eq_isSome, Option.isSome_iff_ne_none, ne_eq, (h key).eq_none_iff,
      Classical.not_not]
  · have := h e.1
    rwa [Keyed.lookup_of_mem hnodup he] at this

/-- What is said of the first items comes before what is said of the others. -/
theorem ExactItems.cons {found : Option Difference} {parts : List Difference} {s : Sides}
    {rest : List Sides} (h : Says found s) (more : ExactItems parts rest) :
    ExactItems (found.toList ++ parts) (s :: rest) := by
  cases found with
  | none => exact .same h more
  | some d => exact .differ (differs_of_exact h) h more

/-! ## One side only -/

/-- The fields of one side are told by their lasting values. -/
theorem oneSidedFields_eq_map (side : Side) (later fields : Fields) :
    oneSidedFields side later fields =
      (Keyed.lasting later fields).map fun e => (e.1, oneSided side e.2) := by
  induction fields with
  | nil => rfl
  | cons e rest ih =>
      rw [oneSidedFields, Keyed.lasting]
      split
      · exact ih
      · rw [List.map_cons, ih]

/-- A key of one side is told by its last value. -/
theorem lookupLast_oneSidedFields (side : Side) (later : Fields) (key : String) (fields : Fields) :
    Keyed.lookupLast key (oneSidedFields side later fields) =
      if Keyed.hasKey key later then none
      else (Keyed.lookupLast key fields).map (oneSided side) := by
  rw [oneSidedFields_eq_map, Keyed.lookupLast_map fun _ => oneSided side, Keyed.lookupLast_lasting]
  split <;> rfl

theorem nodup_oneSidedFields (side : Side) (later fields : Fields) :
    ((oneSidedFields side later fields).map Prod.fst).Nodup := by
  rw [oneSidedFields_eq_map, List.map_map]
  exact Keyed.nodup_lasting later fields

/-- What is said of nodes of one side is exact under every key if it is so for every node. -/
theorem says_place {side : Side} {fields : Fields} {key : String} {found : Option Difference}
    (hfound : found = (Keyed.lookupLast key fields).map (oneSided side))
    (hexact : ∀ e ∈ fields, Exact (oneSided side e.2) (side.place (some e.2) none)) :
    Says found (sidesAt key (side.place fields [])) := by
  rw [hfound, sidesAt_place]
  cases h : Keyed.lookupLast key fields with
  | none => cases side <;> simp [Says, Differs, Side.place]
  | some n => exact hexact (key, n) (Keyed.mem_of_lookupLast h)

/-- The items of one side are told one by one. -/
theorem exactItems_oneSided {side : Side} {items : List Node}
    (h : ∀ n ∈ items, Exact (oneSided side n) (side.place (some n) none)) :
    ExactItems (oneSidedItems side items) (items.map fun n => side.place (some n) none) := by
  induction items with
  | nil => exact .nil
  | cons n rest ih =>
      rw [List.forall_mem_cons] at h
      exact .differ (differs_place side n) h.1 (ih h.2)

/-- The entries of an object that stands on one side only, by key. -/
theorem lookup_oneSided_object (side : Side) (className : String) (configured recorded : Fields)
    (key : String) (kind : RecordKind) (configurable : Bool) :
    Keyed.lookup key (Keyed.ofList (("class-name", Difference.only side className) ::
        (oneSidedFields side recorded configured ++ oneSidedFields side [] recorded))) =
      (Keyed.lookupLast key (Record.children
        ⟨kind, className, configurable, configured, recorded⟩)).map (oneSided side) := by
  rw [Keyed.lookup_ofList, Record.children, Record.fields, Keyed.lookupLast_cons,
    Keyed.lookupLast_cons, Keyed.lookupLast_append, Keyed.lookupLast_append,
    lookupLast_oneSidedFields, lookupLast_oneSidedFields]
  cases hr : Keyed.lookupLast key recorded with
  | some n => simp [Keyed.hasKey]
  | none =>
      rw [Keyed.lookupLast_eq_none_iff.1 hr]
      cases hc : Keyed.lookupLast key configured with
      | some n => simp [Keyed.hasKey]
      | none =>
          simp only [Option.map_none, Option.or_none, ite_self, Option.none_or]
          split
          · simp [oneSided, Node.text, Primitive.render]
          · simp

mutual

/-- What is said of a node that stands on one side only is exact. -/
theorem exact_oneSided (side : Side) :
    (n : Node) → Exact (oneSided side n) (side.place (some n) none)
  | .primitive value => .only rfl
  | .list [] => .only rfl
  | .list (n :: rest) => by
      have hitems := exact_oneSidedItems side (n :: rest)
      rw [oneSided]
      exact .onlyItems (by simp [oneSidedItems]) (exactItems_oneSided hitems)
  | .map [] => .only rfl
  | .map (e :: rest) => by
      have hfields := exact_oneSidedFields side (e :: rest)
      rw [oneSided]
      refine .onlyNested rfl ?_ (exactReport_of_lookup (nodup_oneSidedFields _ _ _) fun key => ?_)
      · intro hnil
        have := lookupLast_oneSidedFields side [] e.1 (e :: rest)
        rw [hnil, Keyed.lookupLast_cons] at this
        cases h : Keyed.lookupLast e.1 rest <;> simp [h, Keyed.hasKey] at this
      · apply says_place _ hfields
        rw [← Keyed.lookupLast_eq_lookup (nodup_oneSidedFields _ _ _), lookupLast_oneSidedFields]
        simp [Keyed.hasKey]
  | .object kind className configurable configured recorded => by
      have hconfigured := exact_oneSidedFields side configured
      have hrecorded := exact_oneSidedFields side recorded
      rw [oneSided]
      have hfind := lookup_oneSided_object side className configured recorded
      refine .onlyNested rfl ?_
        (exactReport_of_lookup (Keyed.ascending_ofList _).nodup_keys fun key => ?_)
      · intro hnil
        have := hfind "class-name" kind configurable
        rw [hnil, Record.children, Keyed.lookupLast_cons] at this
        cases h : Keyed.lookupLast "class-name" (Record.fields
          ⟨kind, className, configurable, configured, recorded⟩) <;> simp [h] at this
      · apply says_place (hfind key kind configurable)
        intro e he
        rcases List.mem_cons.1 he with rfl | he
        · exact .only rfl
        · rcases List.mem_append.1 he with he | he
          · exact hconfigured e he
          · exact hrecorded e he

/-- What is told of the items of one side is exact. -/
theorem exact_oneSidedItems (side : Side) :
    (items : List Node) → ∀ n ∈ items, Exact (oneSided side n) (side.place (some n) none)
  | [] => by simp
  | n :: rest => List.forall_mem_cons.2 ⟨exact_oneSided side n, exact_oneSidedItems side rest⟩

/-- What is told of the fields of one side is exact. -/
theorem exact_oneSidedFields (side : Side) :
    (fields : List (String × Node)) →
      ∀ e ∈ fields, Exact (oneSided side e.2) (side.place (some e.2) none)
  | [] => by simp
  | (_, n) :: rest =>
      List.forall_mem_cons.2 ⟨exact_oneSided side n, exact_oneSidedFields side rest⟩

end

/-! ## Collecting -/

/-- What comparing the nodes of a key on the two sides gives. -/
def compareAt (path key : String) : Sides → Outcome
  | (some n, some m) => compareNodes (childPath path key) n m
  | (some n, none) => .ok (some (oneSided .left n))
  | (none, some m) => .ok (some (oneSided .right m))
  | (none, none) => .ok none

/-- A report tells of a key what its outcome was. -/
theorem lookup_collect {outcomes : List (String × Outcome)} {found : Report}
    (hasc : Keyed.Ascending outcomes) (h : collect outcomes = .ok found) (key : String) :
    (Keyed.lookup key outcomes).getD (.ok none) = .ok (Keyed.lookup key found) := by
  induction outcomes generalizing found with
  | nil =>
      simp only [collect, Except.ok.injEq] at h
      simp [← h]
  | cons o rest ih =>
      rcases o with ⟨k, outcome⟩
      unfold collect at h
      split at h
      · simp at h
      · rename_i d
        split at h
        · simp at h
        · rename_i more hmore
          have hrest := ih hasc.2 hmore
          simp only [Except.ok.injEq] at h
          subst h
          by_cases hk : k = key
          · subst hk
            have hnone : Keyed.lookup k more = none := by
              rw [hasc.lookup_head] at hrest
              exact (Except.ok.inj hrest).symm
            cases d <;> simp [Keyed.lookup, hnone]
          · cases d <;> simpa [Keyed.lookup, hk] using hrest

/-- Outcomes that are no errors are collected. -/
theorem collect_total {outcomes : List (String × Outcome)}
    (h : ∀ o ∈ outcomes, ∃ found, o.2 = .ok found) : ∃ found, collect outcomes = .ok found := by
  induction outcomes with
  | nil => exact ⟨[], rfl⟩
  | cons o rest ih =>
      rcases o with ⟨key, outcome⟩
      rw [List.forall_mem_cons] at h
      rcases h.1 with ⟨found, hfound⟩
      rcases ih h.2 with ⟨more, hmore⟩
      simp only at hfound
      subst hfound
      simp only [collect, hmore]
      exact ⟨_, rfl⟩

/-- The fields that the other side lacks are told by their last values. -/
theorem lookupLast_missingFrom (side : Side) (fields others : Fields) (key : String) :
    Keyed.lookupLast key (missingFrom side fields others) =
      if Keyed.hasKey key others then none
      else (Keyed.lookupLast key fields).map (oneSided side) := by
  rw [missingFrom, lookupLast_oneSidedFields,
    Keyed.lookupLast_filter fun key => !Keyed.hasKey key others]
  cases Keyed.hasKey key others <;> simp [Keyed.hasKey]

/-- Whether outcomes are those of comparing the fields of the left side with the right side. -/
def Outcomes (path : String) (outcomes : List (String × Outcome)) (fields : Fields × Fields) :
    Prop :=
  ∀ key, Keyed.lookupLast key outcomes =
    (Keyed.lookupLast key fields.1).map fun n =>
      compareAt path key (some n, Keyed.lookupLast key fields.2)

/-- Together with the fields that only the right side has, the outcomes cover every key. -/
theorem Outcomes.lookup_all {path : String} {outcomes : List (String × Outcome)}
    {fields : Fields × Fields} (h : Outcomes path outcomes fields) (key : String) :
    (Keyed.lookup key (Keyed.ofList (outcomes ++
        (missingFrom .right fields.2 fields.1).map fun e => (e.1, .ok (some e.2))))).getD
          (.ok none) = compareAt path key (sidesAt key fields) := by
  rw [Keyed.lookup_ofList, Keyed.lookupLast_append, Keyed.lookupLast_map
    fun _ (d : Difference) => (.ok (some d) : Outcome), lookupLast_missingFrom, h key, sidesAt]
  cases hleft : Keyed.lookupLast key fields.1 with
  | some n =>
      have hkey : Keyed.hasKey key fields.1 = true := by
        rw [Keyed.hasKey_eq_isSome_lookupLast, hleft]
        rfl
      simp [hkey]
  | none =>
      rw [Keyed.lookupLast_eq_none_iff.1 hleft]
      cases Keyed.lookupLast key fields.2 <;> simp [compareAt]

/-- A report holds under every key what comparing the nodes of the key gives. -/
theorem Outcomes.lookup_report {path : String} {outcomes : List (String × Outcome)}
    {fields : Fields × Fields} (h : Outcomes path outcomes fields) {found : Report}
    (hreport : report outcomes (missingFrom .right fields.2 fields.1) = .ok found) (key : String) :
    compareAt path key (sidesAt key fields) = .ok (Keyed.lookup key found) := by
  rw [← h.lookup_all]
  exact lookup_collect (Keyed.ascending_ofList _) hreport key

/-- There is a report if comparing the nodes of every key comes to an end. -/
theorem Outcomes.report_total {path : String} {outcomes : List (String × Outcome)}
    {fields : Fields × Fields} (h : Outcomes path outcomes fields)
    (htotal : ∀ key, ∃ found, compareAt path key (sidesAt key fields) = .ok found) :
    ∃ found, report outcomes (missingFrom .right fields.2 fields.1) = .ok found := by
  apply collect_total
  intro o ho
  rcases htotal o.1 with ⟨found, hfound⟩
  rw [← h.lookup_all, Keyed.lookup_of_mem (Keyed.ascending_ofList _).nodup_keys ho] at hfound
  exact ⟨found, hfound⟩

/-- A report is exact if what is said under every key is. -/
theorem Outcomes.exactReport {path : String} {outcomes : List (String × Outcome)}
    {fields : Fields × Fields} (h : Outcomes path outcomes fields) {found : Report}
    (hreport : report outcomes (missingFrom .right fields.2 fields.1) = .ok found)
    (htruthful : ∀ key said, compareAt path key (sidesAt key fields) = .ok said →
      Says said (sidesAt key fields)) : ExactReport found fields :=
  exactReport_of_lookup (collect_ascending (Keyed.ascending_ofList _) hreport).nodup_keys
    fun key => htruthful key _ (h.lookup_report hreport key)

/-! ## Both sides -/

/-- Fields are compared by their lasting values. -/
theorem compareFields_eq_map (path : String) (later others fields : Fields) :
    compareFields path later others fields =
      (Keyed.lasting later fields).map fun e =>
        (e.1, compareAt path e.1 (some e.2, Keyed.lookupLast e.1 others)) := by
  induction fields with
  | nil => rfl
  | cons e rest ih =>
      rw [compareFields, Keyed.lasting]
      split
      · exact ih
      · rw [List.map_cons, ih]
        cases Keyed.lookupLast e.1 others <;> rfl

/-- A key is compared by its last values. -/
theorem lookupLast_compareFields (path : String) (later others fields : Fields) (key : String) :
    Keyed.lookupLast key (compareFields path later others fields) =
      if Keyed.hasKey key later then none
      else (Keyed.lookupLast key fields).map fun n =>
        compareAt path key (some n, Keyed.lookupLast key others) := by
  rw [compareFields_eq_map, Keyed.lookupLast_map
    fun key n => compareAt path key (some n, Keyed.lookupLast key others), Keyed.lookupLast_lasting]
  split <;> rfl

theorem outcomes_map (path : String) (es fs : Fields) :
    Outcomes path (compareFields path [] fs es) (es, fs) := by
  intro key
  rw [lookupLast_compareFields]
  simp [Keyed.hasKey]

/-- The class name is compared as the first of an object's children. -/
theorem compareClassNames_eq (path className : String) (others : Fields) :
    compareClassNames className others = ("class-name",
      compareAt path "class-name" (some (.text className),
        Keyed.lookupLast "class-name" others)) := by
  rw [compareClassNames]
  cases Keyed.lookupLast "class-name" others with
  | none => rfl
  | some m => cases m <;> simp [compareAt, compareNodes, Node.text, Node.kindName]

/-- Objects are compared by their class names and fields. -/
theorem outcomes_object (path : String) (r : Record) (others : Fields) :
    Outcomes path
      (compareClassNames r.className others ::
        (compareFields path r.recorded others r.configured ++
          compareFields path [] others r.recorded))
      (r.children, others) := by
  intro key
  rw [compareClassNames_eq path, Record.children, Record.fields, Keyed.lookupLast_cons,
    Keyed.lookupLast_cons, Keyed.lookupLast_append, Keyed.lookupLast_append,
    lookupLast_compareFields, lookupLast_compareFields]
  cases hr : Keyed.lookupLast key r.recorded with
  | some n => simp [Keyed.hasKey]
  | none =>
      rw [Keyed.lookupLast_eq_none_iff.1 hr]
      cases hc : Keyed.lookupLast key r.configured with
      | some n => simp [Keyed.hasKey]
      | none =>
          simp only [Option.map_none, Option.or_none, ite_self, Option.none_or]
          split
          · rename_i hkey
            simp [hkey]
          · rfl

/-- Nodes of different kinds are not compared inside. -/
theorem compareNodes_of_kindName_ne {n m : Node} (h : n.kindName ≠ m.kindName) (path : String) :
    compareNodes path n m = .ok (some (.kinds n.kindName m.kindName)) := by
  cases n with
  | object kind className configurable configured recorded =>
      cases m with
      | object kind' className' configurable' configured' recorded' =>
          have hkind : kind ≠ kind' := fun heq => h (by rw [heq]; rfl)
          simp [compareNodes, Node.record?, Node.kindName, hkind]
      | _ => simp [compareNodes, Node.record?, Node.kindName]
  | _ => cases m <;> simp_all [compareNodes, Node.kindName]

/-- What is said under a key is exact if it is so for the nodes of the left side. -/
theorem says_of_compareAt {path key : String} {fields : Fields × Fields}
    (h : ∀ e ∈ fields.1, Truthful e.2)
    {said : Option Difference} (hsaid : compareAt path key (sidesAt key fields) = .ok said) :
    Says said (sidesAt key fields) := by
  rw [sidesAt] at hsaid ⊢
  cases hleft : Keyed.lookupLast key fields.1 with
  | some n =>
      cases hright : Keyed.lookupLast key fields.2 with
      | some m =>
          rw [hleft, hright] at hsaid
          exact h (key, n) (Keyed.mem_of_lookupLast hleft) _ _ _ hsaid
      | none =>
          simp only [hleft, hright, compareAt, Except.ok.injEq] at hsaid
          rw [← hsaid]
          exact exact_oneSided .left n
  | none =>
      cases hright : Keyed.lookupLast key fields.2 with
      | some m =>
          simp only [hleft, hright, compareAt, Except.ok.injEq] at hsaid
          rw [← hsaid]
          exact exact_oneSided .right m
      | none =>
          simp only [hleft, hright, compareAt, Except.ok.injEq] at hsaid
          simp [← hsaid, Says, Differs]

/-- Comparing the nodes of a key comes to an end if it does so for nodes that look the same. -/
theorem compareAt_total {path key : String} {fields : Fields × Fields}
    (h : ∀ e ∈ fields.1, Conclusive e.2)
    (hsame : ¬ Differs (sidesAt key fields)) :
    ∃ found, compareAt path key (sidesAt key fields) = .ok found := by
  rw [sidesAt] at hsame ⊢
  cases hleft : Keyed.lookupLast key fields.1 with
  | some n =>
      cases hright : Keyed.lookupLast key fields.2 with
      | some m =>
          rw [hleft, hright, not_differs_some_iff] at hsame
          exact h (key, n) (Keyed.mem_of_lookupLast hleft) _ _ hsame
      | none => exact ⟨_, rfl⟩
  | none =>
      cases hright : Keyed.lookupLast key fields.2 with
      | some m => exact ⟨_, rfl⟩
      | none => exact ⟨_, rfl⟩

/-- What is said of two nodes of one kind with children is exact if their report is. -/
theorem says_nestedUnlessEmpty {path : String} {outcomes : List (String × Outcome)} {m n : Node}
    {ms ns : Fields} (hkind : m.kindName = n.kindName) (hm : children? m = some ms)
    (hn : children? n = some ns) (h : Outcomes path outcomes (ms, ns))
    (htruthful : ∀ e ∈ ms, Truthful e.2)
    {found : Option Difference}
    (hfound : (report outcomes (missingFrom .right ns ms)).map nestedUnlessEmpty = .ok found) :
    Says found (some m, some n) := by
  cases hreport : report outcomes (missingFrom .right ns ms) with
  | error fault => simp [hreport, Except.map] at hfound
  | ok entries =>
      simp only [hreport, Except.map, Except.ok.injEq] at hfound
      have hexact := h.exactReport hreport fun key said => says_of_compareAt htruthful
      cases entries with
      | nil =>
          rw [← hfound]
          rcases hexact with ⟨keys, -⟩
          refine not_differs_some_iff.2 ((view_eq_iff_of_children hkind hm hn).2 fun key => ?_)
          rw [← keys]
          simp [Keyed.hasKey]
      | cons e rest =>
          rw [← hfound]
          exact .nested hkind hm hn (by simp) hexact

/-- Of nodes of different kinds the kinds are told. -/
theorem says_of_kindName_ne {n m : Node} (hne : n.kindName ≠ m.kindName) {path : String}
    {found : Option Difference} (h : compareNodes path n m = .ok found) :
    Says found (some n, some m) := by
  rw [compareNodes_of_kindName_ne hne, Except.ok.injEq] at h
  exact h ▸ .kinds hne

/-- A comparison with a primitive says what is exact. -/
theorem truthful_primitive (x : Primitive) : Truthful (.primitive x) := by
  intro path m found h
  by_cases hkind : Node.kindName (.primitive x) = m.kindName
  · rcases eq_primitive_of_kindName hkind.symm with ⟨y, rfl⟩
    simp only [compareNodes, comparePrimitives, Except.ok.injEq] at h
    split at h
    · rename_i heq
      rw [← h]
      exact not_differs_some_iff.2 (by rw [Node.view, Node.view, heq])
    · rename_i hne
      rw [← h]
      exact .changed hne
  · exact says_of_kindName_ne hkind h

/-- The children of an object have what its fields and every primitive have. -/
theorem forall_mem_children {P : Node → Prop} {r : Record} (hprimitive : ∀ x, P (.primitive x))
    (hconfigured : ∀ e ∈ r.configured, P e.2) (hrecorded : ∀ e ∈ r.recorded, P e.2) :
    ∀ e ∈ r.children, P e.2 := by
  intro e he
  rcases List.mem_cons.1 he with rfl | he
  · exact hprimitive _
  · rcases List.mem_append.1 he with he | he
    · exact hconfigured e he
    · exact hrecorded e he

mutual

/-- What the comparison of two nodes says is exact. -/
theorem compareNodes_truthful : (n : Node) → Truthful n
  | .primitive x => truthful_primitive x
  | .list xs => by
      intro path m found h
      by_cases hkind : Node.kindName (.list xs) = m.kindName
      · rcases eq_list_of_kindName hkind.symm with ⟨ys, rfl⟩
        simp only [compareNodes] at h
        split at h
        · rename_i hlen
          cases hitems : compareItems path 0 xs ys with
          | error fault => simp [hitems, Except.map] at h
          | ok parts =>
              have hexact := compareItems_exact xs path 0 ys parts hlen hitems
              simp only [hitems, Except.map, Except.ok.injEq] at h
              rw [← h]
              cases parts with
              | nil =>
                  -- nothing is told of items that all look the same
                  refine not_differs_some_iff.2 ?_
                  rw [Node.view, Node.view,
                    (viewItems_eq_iff hlen).2 (not_differs_of_exactItems hexact)]
              | cons d parts => exact .items hlen (by simp) hexact
        · simp at h
      · exact says_of_kindName_ne hkind h
  | .map es => by
      intro path m found h
      have hfields := compareFields_truthful es
      by_cases hkind : Node.kindName (.map es) = m.kindName
      · rcases eq_map_of_kindName hkind.symm with ⟨fs, rfl⟩
        simp only [compareNodes] at h
        exact says_nestedUnlessEmpty hkind rfl rfl (outcomes_map path es fs) hfields h
      · exact says_of_kindName_ne hkind h
  | .object kind className configurable configured recorded => by
      intro path m found h
      have hconfigured := compareFields_truthful configured
      have hrecorded := compareFields_truthful recorded
      by_cases hkind : Node.kindName (.object kind className configurable configured recorded) =
          m.kindName
      · rcases eq_node_of_kindName hkind.symm with ⟨s, rfl, hs⟩
        simp only [compareNodes, Node.record?_node, hs, if_true] at h
        exact says_nestedUnlessEmpty hkind rfl rfl (outcomes_object path
          ⟨kind, className, configurable, configured, recorded⟩ s.children)
          (forall_mem_children truthful_primitive hconfigured hrecorded) h
      · exact says_of_kindName_ne hkind h

/-- A comparison of lists of one length says what is exact. -/
theorem compareItems_exact : (xs : List Node) → ∀ path index ys parts, xs.length = ys.length →
    compareItems path index xs ys = .ok parts →
      ExactItems parts ((xs.map some).zip (ys.map some))
  | [] => by
      intro path index ys parts hlen h
      cases ys with
      | nil =>
          simp only [compareItems, Except.ok.injEq] at h
          exact h ▸ .nil
      | cons y ys => simp at hlen
  | x :: xs => by
      intro path index ys parts hlen h
      cases ys with
      | nil => simp at hlen
      | cons y ys =>
          simp only [List.length_cons, Nat.add_right_cancel_iff] at hlen
          simp only [compareItems] at h
          cases hx : compareNodes (itemPath path index) x y with
          | error fault => simp [hx] at h
          | ok found =>
              cases hxs : compareItems path (index + 1) xs ys with
              | error fault => simp [hx, hxs, Except.map] at h
              | ok more =>
                  simp only [hx, hxs, Except.map, Except.ok.injEq] at h
                  rw [← h]
                  exact .cons (compareNodes_truthful x _ y found hx)
                    (compareItems_exact xs path (index + 1) ys more hlen hxs)

/-- The values of fields are compared exactly. -/
theorem compareFields_truthful : (fields : List (String × Node)) → ∀ e ∈ fields, Truthful e.2
  | [] => by simp
  | (_, n) :: rest => List.forall_mem_cons.2 ⟨compareNodes_truthful n, compareFields_truthful rest⟩

end

/-! ## Nodes that look the same -/

/-- Nodes that look the same are of one kind. -/
theorem kindName_eq_of_view_eq {n m : Node} (h : n.view = m.view) : n.kindName = m.kindName := by
  cases n <;> cases m <;> simp_all [Node.view, Node.kindName]

theorem conclusive_primitive (x : Primitive) : Conclusive (.primitive x) := by
  intro path m h
  rcases eq_primitive_of_kindName (kindName_eq_of_view_eq h).symm with ⟨y, rfl⟩
  exact ⟨_, rfl⟩

/-- The report on two nodes of one kind that look the same comes to an end. -/
theorem nestedUnlessEmpty_total {path : String} {outcomes : List (String × Outcome)} {m n : Node}
    {ms ns : Fields} (hview : m.view = n.view) (hm : children? m = some ms)
    (hn : children? n = some ns) (h : Outcomes path outcomes (ms, ns))
    (htotal : ∀ e ∈ ms, Conclusive e.2) :
    ∃ found, (report outcomes (missingFrom .right ns ms)).map nestedUnlessEmpty = .ok found := by
  have hsame := (view_eq_iff_of_children (kindName_eq_of_view_eq hview) hm hn).1 hview
  obtain ⟨found, hfound⟩ := h.report_total fun key => compareAt_total htotal (hsame key)
  rw [hfound]
  exact ⟨_, rfl⟩

mutual

/-- Nodes that look the same are compared to the end. -/
theorem compareNodes_total : (n : Node) → Conclusive n
  | .primitive x => conclusive_primitive x
  | .list xs => by
      intro path m h
      rcases eq_list_of_kindName (kindName_eq_of_view_eq h).symm with ⟨ys, rfl⟩
      rw [Node.view, Node.view, View.list.injEq] at h
      rcases compareItems_total xs path 0 ys h with ⟨parts, hparts⟩
      have hlen : xs.length = ys.length := by
        rw [Node.viewItems_eq_map, Node.viewItems_eq_map] at h
        simpa using congrArg List.length h
      simp only [compareNodes, hlen, if_true, hparts]
      exact ⟨_, rfl⟩
  | .map es => by
      intro path m h
      have hfields := compareFields_total es
      rcases eq_map_of_kindName (kindName_eq_of_view_eq h).symm with ⟨fs, rfl⟩
      simp only [compareNodes]
      exact nestedUnlessEmpty_total h rfl rfl (outcomes_map path es fs) hfields
  | .object kind className configurable configured recorded => by
      intro path m h
      have hconfigured := compareFields_total configured
      have hrecorded := compareFields_total recorded
      rcases eq_node_of_kindName (kindName_eq_of_view_eq h).symm with ⟨s, rfl, hs⟩
      simp only [compareNodes, Node.record?_node, hs, if_true]
      exact nestedUnlessEmpty_total h rfl rfl (outcomes_object path
        ⟨kind, className, configurable, configured, recorded⟩ s.children)
        (forall_mem_children conclusive_primitive hconfigured hrecorded)

/-- Lists that look the same are compared to the end. -/
theorem compareItems_total : (xs : List Node) → ∀ path index ys,
    Node.viewItems xs = Node.viewItems ys → ∃ parts, compareItems path index xs ys = .ok parts
  | [] => by
      intro path index ys h
      cases ys with
      | nil => exact ⟨_, rfl⟩
      | cons y ys => simp [Node.viewItems] at h
  | x :: xs => by
      intro path index ys h
      cases ys with
      | nil => simp [Node.viewItems] at h
      | cons y ys =>
          rw [Node.viewItems, Node.viewItems, List.cons.injEq] at h
          rcases compareNodes_total x (itemPath path index) y h.1 with ⟨found, hfound⟩
          rcases compareItems_total xs path (index + 1) ys h.2 with ⟨parts, hparts⟩
          simp only [compareItems, hfound, hparts]
          exact ⟨_, rfl⟩

/-- The values of fields are compared to the end. -/
theorem compareFields_total : (fields : List (String × Node)) → ∀ e ∈ fields, Conclusive e.2
  | [] => by simp
  | (_, n) :: rest => List.forall_mem_cons.2 ⟨compareNodes_total n, compareFields_total rest⟩

end

/-! ## Trees -/

/-- Two trees are compared by the outcomes of their children. -/
theorem compareTrees_eq_report {left right : Node} {ls rs : Fields}
    (hleft : children? left = some ls) (hright : children? right = some rs) :
    ∃ outcomes, Outcomes "" outcomes (ls, rs) ∧
      compareTrees left right = report outcomes (missingFrom .right rs ls) := by
  rw [compareTrees, hleft, hright]
  cases left with
  | primitive x => simp [children?] at hleft
  | list xs => simp [children?] at hleft
  | map es =>
      simp only [children?, Option.some.injEq] at hleft
      subst hleft
      exact ⟨_, outcomes_map "" es rs, rfl⟩
  | object kind className configurable configured recorded =>
      simp only [children?, Option.some.injEq] at hleft
      subst hleft
      exact ⟨_, outcomes_object "" ⟨kind, className, configurable, configured, recorded⟩ rs, rfl⟩

/-- The report on two trees holds under every key what comparing the nodes of the key gives. -/
theorem lookup_compareTrees {left right : Node} {ls rs : Fields}
    (hleft : children? left = some ls) (hright : children? right = some rs) {found : Report}
    (h : compareTrees left right = .ok found) (key : String) :
    compareAt "" key (sidesAt key (ls, rs)) = .ok (Keyed.lookup key found) := by
  rcases compareTrees_eq_report hleft hright with ⟨outcomes, houtcomes, heq⟩
  exact houtcomes.lookup_report (heq ▸ h) key

/-- Trees that differ at most under one key are compared to the end if the nodes of the key are, and
the report has no other key. -/
theorem compareTrees_under {left right : Node} {ls rs : Fields} (hleft : children? left = some ls)
    (hright : children? right = some rs) {key : String}
    (hkey : ∃ found, compareAt "" key (sidesAt key (ls, rs)) = .ok found)
    (hothers : ∀ other, other ≠ key → ¬ Differs (sidesAt other (ls, rs))) :
    ∃ found, compareTrees left right = .ok found ∧ ∀ e ∈ found, e.1 = key := by
  rcases compareTrees_eq_report hleft hright with ⟨outcomes, houtcomes, heq⟩
  obtain ⟨found, hfound⟩ := houtcomes.report_total fun other => by
    by_cases hother : other = key
    · rw [hother]
      exact hkey
    · exact compareAt_total (fun e _ => compareNodes_total e.2) (hothers other hother)
  obtain ⟨keys, -⟩ := houtcomes.exactReport hfound fun key said =>
    says_of_compareAt fun e _ => compareNodes_truthful e.2
  refine ⟨found, heq.trans hfound, fun e he => Classical.byContradiction fun hother => ?_⟩
  exact hothers e.1 hother ((keys e.1).1 (List.any_eq_true.2 ⟨e, he, by simp⟩))

/-- The report on two trees is empty exactly when every key has the same view in both, and every
report has an entry exactly for each key that differs, at every depth. -/
theorem compareTrees_exact {left right : Node} {ls rs : Fields}
    (hleft : children? left = some ls) (hright : children? right = some rs) :
    (compareTrees left right = .ok [] ↔
        ∀ key, (Keyed.lookupLast key ls).map Node.view = (Keyed.lookupLast key rs).map Node.view) ∧
      ∀ found, compareTrees left right = .ok found → ExactReport found (ls, rs) := by
  rcases compareTrees_eq_report hleft hright with ⟨outcomes, houtcomes, heq⟩
  rw [heq]
  have hexact : ∀ found, report outcomes (missingFrom .right rs ls) = .ok found →
      ExactReport found (ls, rs) := fun found hfound =>
    houtcomes.exactReport hfound fun key said =>
      says_of_compareAt fun e _ => compareNodes_truthful e.2
  refine ⟨⟨fun hnil key => ?_, fun hsame => ?_⟩, hexact⟩
  · rcases hexact [] hnil with ⟨keys, -⟩
    refine not_differs_iff.1 (?_ : ¬ Differs (sidesAt key (ls, rs)))
    rw [← keys]
    simp [Keyed.hasKey]
  · have hnot : ∀ key, ¬ Differs (sidesAt key (ls, rs)) := fun key => not_differs_iff.2 (hsame key)
    obtain ⟨found, hfound⟩ := houtcomes.report_total fun key =>
      compareAt_total (fun e _ => compareNodes_total e.2) (hnot key)
    rcases hexact found hfound with ⟨keys, -⟩
    cases found with
    | nil => exact hfound
    | cons e rest =>
        refine absurd ((keys e.1).1 ?_) (hnot e.1)
        simp [Keyed.hasKey]

/-- A kernel whose parameter was recorded twice against one with another value, and a key that one
tree lacks. -/
theorem compareTrees_exact_repeated_key :
    children? (.map [("c", .long 1), ("kernel", .object .component "RBFKernel" true
        [("gamma", .long 1), ("gamma", .long 2)] [])]) =
      some [("c", .long 1), ("kernel", .object .component "RBFKernel" true
        [("gamma", .long 1), ("gamma", .long 2)] [])] ∧
    children? (.map [("kernel", .object .component "RBFKernel" true [("gamma", .long 3)] [])]) =
      some [("kernel", .object .component "RBFKernel" true [("gamma", .long 3)] [])] ∧
    ExactReport [("c", .only .left "1"), ("kernel", .nested [("gamma", .changed "2" "3")])]
      ([("c", .long 1), ("kernel", .object .component "RBFKernel" true
        [("gamma", .long 1), ("gamma", .long 2)] [])],
        [("kernel", .object .component "RBFKernel" true [("gamma", .long 3)] [])]) :=
  ⟨rfl, rfl, (@compareTrees_exact (.map _) (.map _) _ _ rfl rfl).2 _ (by rfl)⟩

end Difference
end Retrace
