import Retrace.Proofs.Extraction

/-!
# When extractions fail

An extraction fails exactly if an object of the tree has a class name of nothing but blanks, or if a
configurable one has a configured field that no configuration can hold.  The first such object in
dependency order is blamed, for its class name if that is blank and otherwise for the first such
field, and within the field for the first item or entry that does not fit.  The path leads there
from the name of the component.  That an object has no place in the order is never the reason, for
what stands in a field has a place before the object around it.

Main results:

- Theorem `refuses_property`: for what the property of a field is refused.
- Theorem `refuses_configuration`: for what the configuration of an object is refused.
- Theorem `Record.extract_fails`: when an extraction fails, and with which fault.
-/

namespace Retrace

/-! ## First items -/

/-- Whether the item at an index is the first one in a list with a property. -/
structure First {β : Type} (p : β → Prop) (l : List β) (i : Nat) (a : β) : Prop where
  item : l[i]? = some a
  holds : p a
  before : ∀ j b, j < i → l[j]? = some b → ¬p b

namespace First

variable {β γ : Type} {p : β → Prop} {l : List β} {i : Nat} {a b : β}

theorem not_nil : ¬First p [] i a := fun h => by simpa using h.item

/-- The first item with a property is the head of the list, if the head has it, or else the first
one in the tail. -/
theorem cons_iff :
    First p (b :: l) i a ↔ (p b ∧ i = 0 ∧ a = b) ∨ (¬p b ∧ ∃ j, i = j + 1 ∧ First p l j a) := by
  constructor
  · intro h
    cases i with
    | zero =>
        have hitem := Option.some.inj h.item
        exact .inl ⟨hitem ▸ h.holds, rfl, hitem.symm⟩
    | succ i =>
        refine .inr ⟨h.before 0 b (Nat.succ_pos i) rfl, i, rfl, h.item, h.holds, ?_⟩
        exact fun j c hj hc => h.before (j + 1) c (Nat.succ_lt_succ hj) hc
  · rintro (⟨hb, rfl, rfl⟩ | ⟨hb, j, rfl, h⟩)
    · exact ⟨rfl, hb, fun j c hj => absurd hj (Nat.not_lt_zero j)⟩
    · refine ⟨h.item, h.holds, fun k c hk hc => ?_⟩
      cases k with
      | zero => exact Option.some.inj hc ▸ hb
      | succ k => exact h.before k c (Nat.lt_of_succ_lt_succ hk) hc

/-- If some item has a property, then there is a first one. -/
theorem exists_of_mem (h : ∃ a ∈ l, p a) : ∃ i a, First p l i a := by
  induction l with
  | nil => simp at h
  | cons b rest ih =>
      by_cases hb : p b
      · exact ⟨0, b, cons_iff.2 (.inl ⟨hb, rfl, rfl⟩)⟩
      · obtain ⟨i, a, hfirst⟩ := ih (by simpa [hb] using h)
        exact ⟨i + 1, a, cons_iff.2 (.inr ⟨hb, i, rfl, hfirst⟩)⟩

theorem mem (h : First p l i a) : a ∈ l :=
  List.mem_of_getElem? h.item

/-- The first item of a mapped list is that of the list, mapped. -/
theorem map_iff {f : γ → β} {l : List γ} :
    First p (l.map f) i b ↔ ∃ a, First (fun a => p (f a)) l i a ∧ f a = b := by
  constructor
  · intro h
    obtain ⟨a, ha, rfl⟩ := Option.map_eq_some_iff.1 (List.getElem?_map .. ▸ h.item)
    refine ⟨a, ⟨ha, h.holds, fun j c hj hc => h.before j (f c) hj ?_⟩, rfl⟩
    rw [List.getElem?_map, hc, Option.map_some]
  · rintro ⟨a, h, rfl⟩
    refine ⟨by rw [List.getElem?_map, h.item, Option.map_some], h.holds, fun j c hj hc => ?_⟩
    obtain ⟨c', hc', rfl⟩ := Option.map_eq_some_iff.1 (List.getElem?_map .. ▸ hc)
    exact h.before j c' hj hc'

end First

/-! ## Refused results -/

/-- Whether a result is an error exactly for the given faults. -/
def Refuses {ε β : Type} (x : Except ε β) (faults : ε → Prop) : Prop :=
  ∀ fault, x = .error fault ↔ faults fault

namespace Refuses

variable {ε β γ δ : Type} {x : Except ε γ} {faults : ε → Prop}

/-- A result that is right refuses nothing. -/
theorem ok (v : γ) (h : ∀ fault : ε, ¬faults fault) : Refuses (.ok v) faults := fun fault =>
  iff_of_false nofun (h fault)

/-- What is made of a result is refused alike. -/
theorem map (h : Refuses x faults) (f : γ → δ) : Refuses (x.map f) faults := fun fault => by
  rw [← h fault]
  cases x <;> simp [Except.map]

theorem congr {faults' : ε → Prop} (h : Refuses x faults)
    (heq : ∀ fault, faults' fault ↔ faults fault) : Refuses x faults' := fun fault =>
  (h fault).trans (heq fault).symm

/-- Where nothing is needed there is nothing to refuse. -/
theorem nil {p : β → Prop} {blame : Nat → β → ε → Prop} (v : γ) :
    Refuses (.ok v) fun fault => ∃ i a, First p [] i a ∧ blame i a fault :=
  .ok v fun fault h => by
    obtain ⟨i, a, hfirst, -⟩ := h
    exact First.not_nil hfirst

/-- Of results that are needed one after the other the first one that is refused counts. -/
theorem cons {p : β → Prop} {b : β} {rest : List β} {blame : Nat → β → ε → Prop}
    {k : γ → Except ε δ} (hx : Refuses x fun fault => p b ∧ blame 0 b fault)
    (hk : ∀ v, Refuses (k v) fun fault => ∃ i a, First p rest i a ∧ blame (i + 1) a fault)
    (hblame : p b → ∃ fault, blame 0 b fault) :
    Refuses (x.bind k) fun fault => ∃ i a, First p (b :: rest) i a ∧ blame i a fault := by
  intro fault
  cases x with
  | error e =>
      have hb : p b := ((hx e).1 rfl).1
      have hbind : ((Except.error e).bind k = .error fault) ↔ p b ∧ blame 0 b fault :=
        Iff.trans (by simp [Except.bind]) (hx fault)
      rw [hbind]
      constructor
      · exact fun h => ⟨0, b, First.cons_iff.2 (.inl ⟨hb, rfl, rfl⟩), h.2⟩
      · rintro ⟨i, a, hfirst, hfault⟩
        rcases First.cons_iff.1 hfirst with ⟨-, rfl, rfl⟩ | ⟨hnot, -⟩
        · exact ⟨hb, hfault⟩
        · exact absurd hb hnot
  | ok v =>
      have hb : ¬p b := by
        intro hb
        obtain ⟨e, he⟩ := hblame hb
        exact nomatch (hx e).2 ⟨hb, he⟩
      have hbind : ((Except.ok v).bind k = .error fault) ↔
          ∃ i a, First p rest i a ∧ blame (i + 1) a fault := hk v fault
      rw [hbind]
      constructor
      · rintro ⟨i, a, hfirst, hfault⟩
        exact ⟨i + 1, a, First.cons_iff.2 (.inr ⟨hb, i, rfl, hfirst⟩), hfault⟩
      · rintro ⟨i, a, hfirst, hfault⟩
        rcases First.cons_iff.1 hfirst with ⟨hin, -⟩ | ⟨-, j, rfl, hlater⟩
        · exact absurd hin hb
        · exact ⟨j, a, hlater, hfault⟩

end Refuses

/-! ## What does not fit -/

namespace Node

/-- Whether a list holds primitives beside other nodes, or lists or maps. -/
def Mixed (items : List Node) : Prop :=
  ((∃ n ∈ items, n.primitive? ≠ none) ∧ ∃ n ∈ items, n.primitive? = none) ∨
    ∃ n ∈ items, n.primitive? = none ∧ n.record? = none

/-- Whether no configuration can hold a node: an object that is not configurable, a mixed list or
one with such an object, and a map with anything but primitives. -/
def Unfit : Node → Prop
  | .primitive _ => False
  | .list items => Mixed items ∨ ∃ r : Record, r.node ∈ items ∧ r.configurable = false
  | .map entries => ∃ e ∈ entries, e.2.primitive? = none
  | .object _ _ configurable _ _ => configurable = false

/-- What in a node does not fit first: the path that leads to it from the node, and why. -/
inductive Offends : Node → String → ExtractionObstacle → Prop
  | object {kind : RecordKind} {className : String} {configured recorded : Fields} :
      Offends (.object kind className false configured recorded) ""
        (.notConfigurable kind className)
  | mixed {items : List Node} (h : Mixed items) : Offends (.list items) "" .mixedList
  | item {items : List Node} {records : List Record} {i : Nat} {r : Record}
      (objects : items = records.map Record.node)
      (h : First (fun r => r.configurable = false) records i r) :
      Offends (.list items) ("[" ++ toString i ++ "]") (.notConfigurable r.kind r.className)
  | entry {entries : Fields} {i : Nat} {e : String × Node}
      (h : First (fun e => e.2.primitive? = none) entries i e) :
      Offends (.map entries) ("." ++ e.1) (.mapHolds e.2.kindName)

/-- No offending node is said to be out of order. -/
theorem Offends.obstacle_ne {n : Node} {suffix : String} {obstacle : ExtractionObstacle}
    (h : n.Offends suffix obstacle) (className : String) : obstacle ≠ .notOrdered className := by
  cases h <;> simp

/-- A list holds only primitives or only objects if it is not mixed. -/
theorem mixed_iff {items : List Node} :
    Mixed items ↔ (∃ n ∈ items, n.primitive? = none) ∧ ∃ n ∈ items, n.record? = none := by
  constructor
  · rintro (⟨⟨n, hn, hprimitive⟩, hother⟩ | ⟨n, hn, hprimitive, hrecord⟩)
    · refine ⟨hother, n, hn, ?_⟩
      cases n with
      | primitive value => rfl
      | _ => exact absurd rfl hprimitive
    · exact ⟨⟨n, hn, hprimitive⟩, n, hn, hrecord⟩
  · rintro ⟨⟨n, hn, hprimitive⟩, m, hm, hrecord⟩
    cases hvalue : m.primitive? with
    | none => exact .inr ⟨m, hm, hvalue, hrecord⟩
    | some value => exact .inl ⟨⟨m, hm, by simp [hvalue]⟩, n, hn, hprimitive⟩

/-- A list of objects only is not mixed. -/
theorem not_mixed_records (records : List Record) : ¬Mixed (records.map Record.node) := by
  rw [mixed_iff]
  rintro ⟨-, n, hn, hrecord⟩
  obtain ⟨r, -, rfl⟩ := List.mem_map.1 hn
  simp at hrecord

/-- Items that are all objects are the nodes of records. -/
theorem exists_records {items : List Node} (h : ∀ n ∈ items, n.record? ≠ none) :
    ∃ records : List Record, items = records.map Record.node := by
  induction items with
  | nil => exact ⟨[], rfl⟩
  | cons n rest ih =>
      rw [List.forall_mem_cons] at h
      obtain ⟨records, rfl⟩ := ih h.2
      cases n with
      | object kind className configurable configured recorded =>
          exact ⟨⟨kind, className, configurable, configured, recorded⟩ :: records, rfl⟩
      | _ => exact absurd rfl h.1

/-- A node does not fit exactly if something in it does not fit first. -/
theorem unfit_iff {n : Node} : n.Unfit ↔ ∃ suffix obstacle, n.Offends suffix obstacle := by
  constructor
  · intro h
    cases n with
    | primitive value => exact h.elim
    | list items =>
        by_cases hmixed : Mixed items
        · exact ⟨_, _, .mixed hmixed⟩
        · -- with an object in it the list holds nothing but objects
          obtain ⟨r, hr, hconf⟩ := h.resolve_left hmixed
          rw [mixed_iff, not_and, not_exists] at hmixed
          have hrecords := hmixed ⟨r.node, hr, rfl⟩
          obtain ⟨records, rfl⟩ := exists_records fun n hn hnone => hrecords n ⟨hn, hnone⟩
          obtain ⟨s, hs, hnode⟩ := List.mem_map.1 hr
          obtain rfl : s = r := Option.some.inj (congrArg record? hnode)
          obtain ⟨i, t, hfirst⟩ :=
            First.exists_of_mem (p := fun r : Record => r.configurable = false) ⟨s, hs, hconf⟩
          exact ⟨_, _, .item rfl hfirst⟩
    | map entries =>
        obtain ⟨i, e, hfirst⟩ := First.exists_of_mem h
        exact ⟨_, _, .entry hfirst⟩
    | object kind className configurable configured recorded =>
        obtain rfl : configurable = false := h
        exact ⟨_, _, .object⟩
  · rintro ⟨suffix, obstacle, h⟩
    cases h with
    | object => rfl
    | mixed h => exact .inl h
    | @item items records i r objects h =>
        exact .inr ⟨r, objects ▸ List.mem_map_of_mem h.mem, h.holds⟩
    | @entry entries i e h => exact ⟨e, h.mem, h.holds⟩

end Node

namespace Extraction

variable {order : DependencyOrder}

/-! ## Fields -/

/-- Whether all objects in a node that lie in no other object of it have names. -/
def Named (order : DependencyOrder) (n : Node) (first : Nat) : Prop :=
  ∀ o, n.Outermost first o → (order.nameOf? o).isSome

/-- A reference is refused exactly if the object is not configurable. -/
theorem refuses_reference {o : Occurrence} (hname : (order.nameOf? o).isSome) (path : String) :
    Refuses (reference order path o) fun fault => o.record.configurable = false ∧
      fault = ⟨path, .notConfigurable o.record.kind o.record.className⟩ := by
  intro fault
  obtain ⟨name, hname⟩ := Option.isSome_iff_exists.1 hname
  rw [reference, hname]
  cases o.record.configurable <;> simp [eq_comm]

/-- References to objects are refused for the first one that is not configurable. -/
theorem refuses_references {os : List Occurrence} (hnames : ∀ o ∈ os, (order.nameOf? o).isSome)
    (path : String) (index : Nat) :
    Refuses (references order path index os) fun fault =>
      ∃ i o, First (fun o => o.record.configurable = false) os i o ∧
        fault = ⟨path ++ "[" ++ toString (index + i) ++ "]",
          .notConfigurable o.record.kind o.record.className⟩ := by
  induction os generalizing index with
  | nil => exact .nil []
  | cons o rest ih =>
      rw [List.forall_mem_cons] at hnames
      have hstep : references order path index (o :: rest) =
          (reference order (path ++ "[" ++ toString index ++ "]") o).bind fun name =>
            (references order path (index + 1) rest).map fun names => name :: names := by
        rw [references]
        cases reference order (path ++ "[" ++ toString index ++ "]") o <;> rfl
      rw [hstep]
      refine Refuses.cons (refuses_reference hnames.1 _) (fun name => ?_) fun _ => ⟨_, rfl⟩
      refine ((ih hnames.2 (index + 1)).map _).congr fun fault => ?_
      simp only [Nat.add_assoc, Nat.add_comm 1]

/-- The texts of a map are refused for its first entry that is no primitive. -/
theorem refuses_mapTexts (path : String) (entries : Fields) :
    Refuses (mapTexts path entries) fun fault =>
      ∃ i e, First (fun e => e.2.primitive? = none) entries i e ∧
        fault = ⟨path ++ "." ++ e.1, .mapHolds e.2.kindName⟩ := by
  induction entries with
  | nil => exact .nil []
  | cons e rest ih =>
      obtain ⟨key, n⟩ := e
      let head : Except ExtractionFault Primitive :=
        n.primitive?.elim (.error ⟨path ++ "." ++ key, .mapHolds n.kindName⟩) .ok
      have hstep : mapTexts path ((key, n) :: rest) = head.bind fun value =>
          (mapTexts path rest).map fun texts => (key, value.render) :: texts := by
        simp only [mapTexts, head]
        cases n.primitive? <;> rfl
      rw [hstep]
      refine Refuses.cons (fun fault => ?_) (fun value => ih.map _) fun _ => ⟨_, rfl⟩
      simp only [head]
      cases n.primitive? <;> simp [eq_comm]

/-- There are as many texts as items unless one is no primitive. -/
theorem length_listTexts_iff {items : List Node} :
    (listTexts items).length = items.length ↔ ¬∃ n ∈ items, n.primitive? = none := by
  rw [listTexts, List.filterMap_length_eq_length]
  simp [Option.isSome_iff_ne_none]

/-- There are as many objects as items unless one is no object. -/
theorem length_listObjects_iff {items : List Node} {first : Nat} :
    (listObjects first items).length = items.length ↔ ¬∃ n ∈ items, n.record? = none := by
  induction items generalizing first with
  | nil => simp [listObjects, numberItems]
  | cons n rest ih =>
      have hrest := length_listObjects_le (first + n.objects) rest
      rw [listObjects_cons, List.length_append, List.length_cons, List.exists_mem_cons_iff, not_or,
        ← @ih (first + n.objects)]
      cases n.record? with
      | none => simp; omega
      | some r => simp; omega

/-- The objects of a list of nothing else are those of its records. -/
theorem map_record_listObjects (records : List Record) (first : Nat) :
    (listObjects first (records.map Record.node)).map Occurrence.record = records := by
  induction records generalizing first with
  | nil => rfl
  | cons r rest ih => rw [List.map_cons, listObjects_cons, List.map_append, ih]; rfl

/-- The property of a field is refused for what in the field does not fit first. -/
theorem refuses_property {n : Node} {first : Nat} (hnamed : Named order n first) (path : String) :
    Refuses (property order path n first) fun fault =>
      ∃ suffix obstacle, n.Offends suffix obstacle ∧ fault = ⟨path ++ suffix, obstacle⟩ := by
  cases n with
  | primitive value =>
      refine .ok _ fun fault h => ?_
      obtain ⟨suffix, obstacle, hoffends, -⟩ := h
      cases hoffends
  | map entries =>
      refine ((refuses_mapTexts path entries).map _).congr fun fault => ?_
      constructor
      · rintro ⟨suffix, obstacle, hoffends, rfl⟩
        cases hoffends with
        | entry h => exact ⟨_, _, h, by rw [String.append_assoc]⟩
      · rintro ⟨i, e, h, rfl⟩
        exact ⟨_, _, .entry h, by rw [String.append_assoc]⟩
  | list items =>
      rw [property_list]
      split
      · -- a list of primitives only is no list of objects unless it is empty
        rename_i htexts
        rw [length_listTexts_iff] at htexts
        refine .ok _ fun fault h => htexts ?_
        obtain ⟨suffix, obstacle, hoffends, -⟩ := h
        cases hoffends with
        | mixed h => exact (Node.mixed_iff.1 h).1
        | @item items records i r objects h =>
            exact ⟨r.node, objects ▸ List.mem_map_of_mem h.mem, rfl⟩
      · rename_i htexts
        rw [length_listTexts_iff, not_not] at htexts
        split
        · -- a list of objects is refused at the first one that is not configurable
          rename_i hobjects
          rw [length_listObjects_iff] at hobjects
          have hnames : ∀ o ∈ listObjects first items, (order.nameOf? o).isSome :=
            fun o ho => hnamed o (outermost_listObjects ho)
          refine ((refuses_references hnames path 0).map _).congr fun fault => ?_
          simp only [Nat.zero_add, String.append_assoc]
          constructor
          · rintro ⟨suffix, obstacle, hoffends, rfl⟩
            cases hoffends with
            | mixed h => exact absurd (Node.mixed_iff.1 h).2 hobjects
            | @item items records i r objects h =>
                subst objects
                rw [← map_record_listObjects records first, First.map_iff] at h
                obtain ⟨o, ho, rfl⟩ := h
                exact ⟨i, o, ho, rfl⟩
          · rintro ⟨i, o, ho, rfl⟩
            obtain ⟨records, rfl⟩ := Node.exists_records fun n hn hnone => hobjects ⟨n, hn, hnone⟩
            have hfirst : First (fun r : Record => r.configurable = false)
                ((listObjects first (records.map Record.node)).map Occurrence.record) i o.record :=
              First.map_iff.2 ⟨o, ho, rfl⟩
            rw [map_record_listObjects] at hfirst
            exact ⟨_, _, .item rfl hfirst, rfl⟩
        · -- and a list that is neither is refused as a whole
          rename_i hobjects
          rw [length_listObjects_iff, not_not] at hobjects
          have hmixed := Node.mixed_iff.2 ⟨htexts, hobjects⟩
          intro fault
          constructor
          · rintro ⟨rfl⟩
            exact ⟨_, _, .mixed hmixed, by rw [String.append_empty]⟩
          · rintro ⟨suffix, obstacle, hoffends, rfl⟩
            cases hoffends with
            | mixed h => rw [String.append_empty]
            | item objects h => exact absurd (objects ▸ hmixed) (Node.not_mixed_records _)
  | object kind className configurable configured recorded =>
      have hname := hnamed ⟨⟨kind, className, configurable, configured, recorded⟩, first + 1⟩
        ⟨List.mem_cons_self, first, List.mem_singleton_self first, rfl⟩
      refine ((refuses_reference hname path).map _).congr fun fault => ?_
      constructor
      · rintro ⟨suffix, obstacle, hoffends, rfl⟩
        cases hoffends with
        | object => exact ⟨rfl, by rw [String.append_empty]⟩
      · rintro ⟨hconf, rfl⟩
        obtain rfl : configurable = false := hconf
        exact ⟨_, _, .object, by rw [String.append_empty]⟩

/-! ## Objects -/

/-- Configured fields are refused for the first one that does not fit. -/
theorem refuses_configure {fields : List (String × Node × Nat)}
    (hnamed : ∀ e ∈ fields, Named order e.2.1 e.2.2) (c : Configuration) :
    Refuses (configure order c fields) fun fault =>
      ∃ i e, First (fun e => e.2.1.Unfit) fields i e ∧ ∃ suffix obstacle,
        e.2.1.Offends suffix obstacle ∧
          fault = ⟨c.name ++ "." ++ e.1 ++ suffix, obstacle⟩ := by
  induction fields generalizing c with
  | nil => exact .nil c
  | cons e rest ih =>
      obtain ⟨key, n, first⟩ := e
      rw [List.forall_mem_cons] at hnamed
      have hstep : configure order c ((key, n, first) :: rest) =
          (property order (c.name ++ "." ++ key) n first).bind fun value =>
            configure order (c.set key value) rest := by
        rw [configure]
        cases property order (c.name ++ "." ++ key) n first <;> rfl
      rw [hstep]
      refine Refuses.cons ((refuses_property hnamed.1 _).congr fun fault => ?_)
        (fun value => ih hnamed.2 (c.set key value)) fun hunfit => ?_
      · refine and_iff_right_of_imp fun h => ?_
        obtain ⟨suffix, obstacle, hoffends, -⟩ := h
        exact Node.unfit_iff.2 ⟨suffix, obstacle, hoffends⟩
      · obtain ⟨suffix, obstacle, hoffends⟩ := Node.unfit_iff.1 hunfit
        exact ⟨_, suffix, obstacle, hoffends, rfl⟩

end Extraction

namespace Record

/-- Whether there is nothing but blanks in the class name. -/
def Nameless (r : Record) : Prop :=
  ∀ c ∈ r.className.toList, Text.isBlank c = true

/-- Whether an object makes an extraction fail: there is nothing but blanks in its class name, or it
is configurable and has a configured field that no configuration can hold. -/
def Inadmissible (r : Record) : Prop :=
  r.Nameless ∨ (r.configurable = true ∧ ∃ e ∈ r.configured, e.2.Unfit)

/-- The faults for which an object at a position is blamed: for its class name, or else for the
first configured field that does not fit. -/
inductive Blamed (r : Record) (p : Nat) : ExtractionFault → Prop
  | nameless (h : r.Nameless) : Blamed r p ⟨componentName r.className p, .blankClassName⟩
  | field {i : Nat} {e : String × Node} {suffix : String} {obstacle : ExtractionObstacle}
      (named : ¬r.Nameless) (configurable : r.configurable = true)
      (first : First (fun e => e.2.Unfit) r.configured i e)
      (offends : e.2.Offends suffix obstacle) :
      Blamed r p ⟨componentName r.className p ++ "." ++ e.1 ++ suffix, obstacle⟩

/-- An object is inadmissible if some fault is blamed on it. -/
theorem inadmissible_iff {r : Record} (p : Nat) : r.Inadmissible ↔ ∃ fault, r.Blamed p fault := by
  constructor
  · intro h
    by_cases hnameless : r.Nameless
    · exact ⟨_, .nameless hnameless⟩
    · obtain ⟨hconf, hunfit⟩ := h.resolve_left hnameless
      obtain ⟨i, e, hfirst⟩ := First.exists_of_mem hunfit
      obtain ⟨suffix, obstacle, hoffends⟩ := Node.unfit_iff.1 hfirst.holds
      exact ⟨_, .field hnameless hconf hfirst hoffends⟩
  · rintro ⟨fault, h⟩
    cases h with
    | nameless h => exact .inl h
    | field named configurable first offends =>
        exact .inr ⟨configurable, _, first.mem, first.holds⟩

end Record

/-- A text is empty without the blanks at its ends exactly if it holds nothing but blanks. -/
theorem Text.isEmpty_trim (s : List Char) :
    (Text.trim s).isEmpty = true ↔ ∀ c ∈ s, Text.isBlank c = true := by
  rw [List.isEmpty_iff, Text.trim, Text.trimEnd, List.reverse_eq_nil_iff, List.dropWhile_eq_nil_iff,
    Text.trimStart]
  simp only [List.mem_reverse]
  constructor
  · intro h c hc
    rw [← List.takeWhile_append_dropWhile (p := Text.isBlank) (l := s), List.mem_append] at hc
    rcases hc with hc | hc
    · exact List.mem_takeWhile_imp hc
    · exact h c hc
  · exact fun h c hc => h c ((List.dropWhile_sublist _).subset hc)

namespace Extraction

variable {order : DependencyOrder}

/-- Numbering fields leaves keys and values. -/
theorem map_numberFields (first : Nat) (fields : Fields) :
    (numberFields first fields).map (fun e => (e.1, e.2.1)) = fields := by
  induction fields generalizing first with
  | nil => rfl
  | cons e rest ih => rw [numberFields, List.map_cons, ih]

/-- The configuration of an object is refused exactly if the object is inadmissible. -/
theorem refuses_configuration {o : Occurrence}
    (hnamed : ∀ e ∈ numberFields o.first o.record.configured, Named order e.2.1 e.2.2) (p : Nat) :
    Refuses (configuration order p o) fun fault =>
      o.record.Inadmissible ∧ o.record.Blamed p fault := by
  rw [configuration]
  by_cases hnameless : o.record.Nameless
  · rw [if_pos ((Text.isEmpty_trim _).2 hnameless)]
    intro fault
    constructor
    · rintro ⟨rfl⟩
      exact ⟨.inl hnameless, .nameless hnameless⟩
    · rintro ⟨-, hblamed⟩
      cases hblamed with
      | nameless => rfl
      | field named => exact absurd hnameless named
  · rw [if_neg fun hempty => hnameless ((Text.isEmpty_trim _).1 hempty)]
    cases hconf : o.record.configurable with
    | false =>
        refine .ok none fun fault h => ?_
        cases h.2 with
        | nameless h' => exact hnameless h'
        | field named configurable => simp [hconf] at configurable
    | true =>
        refine ((refuses_configure hnamed _).map some).congr fun fault => ?_
        constructor
        · rintro ⟨-, hblamed⟩
          cases hblamed with
          | nameless h => exact absurd h hnameless
          | @field i e suffix obstacle named configurable first offends =>
              rw [← map_numberFields o.first o.record.configured, First.map_iff] at first
              obtain ⟨f, hf, rfl⟩ := first
              exact ⟨i, f, hf, suffix, obstacle, offends, rfl⟩
        · rintro ⟨i, f, hf, suffix, obstacle, offends, rfl⟩
          have hfirst : First (fun e : String × Node => e.2.Unfit)
              ((numberFields o.first o.record.configured).map fun e => (e.1, e.2.1)) i
                (f.1, f.2.1) := First.map_iff.2 ⟨f, hf, rfl⟩
          rw [map_numberFields] at hfirst
          exact ⟨.inr ⟨hconf, (f.1, f.2.1), hfirst.mem, hfirst.holds⟩,
            @Record.Blamed.field _ p i (f.1, f.2.1) suffix obstacle hnameless hconf hfirst offends⟩

/-- The configurations of objects are refused for the first inadmissible one. -/
theorem refuses_configurations {rows : List (Nat × Occurrence)}
    (hnamed : ∀ row ∈ rows, ∀ e ∈ numberFields row.2.first row.2.record.configured,
      Named order e.2.1 e.2.2) :
    Refuses (configurations order rows) fun fault =>
      ∃ i row, First (fun row => row.2.record.Inadmissible) rows i row ∧
        row.2.record.Blamed row.1 fault := by
  induction rows with
  | nil => exact .nil []
  | cons row rest ih =>
      obtain ⟨p, o⟩ := row
      rw [List.forall_mem_cons] at hnamed
      have hstep : configurations order ((p, o) :: rest) =
          (configuration order p o).bind fun found =>
            (configurations order rest).map fun configs => found.toList ++ configs := by
        rw [configurations]
        cases configuration order p o <;> rfl
      rw [hstep]
      exact Refuses.cons (refuses_configuration hnamed.1 p) (fun found => (ih hnamed.2).map _)
        (Record.inadmissible_iff p).1

end Extraction

namespace Record

open DependencyOrder

/-- What stands outermost in the configured fields of an object of a tree has a name. -/
theorem named_of_mem_rows {root : Record} {row : Nat × Occurrence}
    (hrow : row ∈ (ofRecord root).rows) {e : String × Node × Nat}
    (he : e ∈ Extraction.numberFields row.2.first row.2.record.configured) :
    Extraction.Named (ofRecord root) e.2.1 e.2.2 := by
  intro i hi
  obtain ⟨q, -, hq⟩ := Extraction.position_lt_of_outermost (get?_of_mem_rows hrow) he hi
  rw [nameOf?, (get?_eq_some_iff.1 hq).2]
  rfl

/-- An extraction that fails tells the first inadmissible object and what is blamed on it. -/
theorem refuses_extract (root : Record) :
    Refuses root.extract fun fault =>
      ∃ i row, First (fun row => row.2.record.Inadmissible) (ofRecord root).rows i row ∧
        row.2.record.Blamed row.1 fault :=
  Extraction.refuses_configurations fun _ hrow _ => named_of_mem_rows hrow

/-- The first row of an inadmissible object is at the first position of one. -/
theorem first_rows_iff {root : Record} {p : Nat} {row : Nat × Occurrence} :
    First (fun row => row.2.record.Inadmissible) (ofRecord root).rows p row ↔
      row.1 = p ∧ (ofRecord root).get? p = some row.2 ∧ row.2.record.Inadmissible ∧
        ∀ q i, q < p → (ofRecord root).get? q = some i → ¬i.record.Inadmissible := by
  have hrows : ∀ q (other : Nat × Occurrence), (ofRecord root).rows[q]? = some other ↔
      other.1 = q ∧ (ofRecord root).get? q = some other.2 := by
    rintro q ⟨q', i⟩
    rw [getElem?_rows, Option.map_eq_some_iff]
    constructor
    · rintro ⟨found, hfound, ⟨rfl, rfl⟩⟩
      exact ⟨rfl, hfound⟩
    · rintro ⟨rfl, hget⟩
      exact ⟨i, hget, rfl⟩
  constructor
  · intro h
    obtain ⟨hp, hget⟩ := (hrows p row).1 h.item
    exact ⟨hp, hget, h.holds, fun q i hq hi => h.before q (q, i) hq ((hrows q (q, i)).2 ⟨rfl, hi⟩)⟩
  · rintro ⟨hp, hget, hholds, hbefore⟩
    exact ⟨(hrows p row).2 ⟨hp, hget⟩, hholds, fun q other hq hother =>
      hbefore q other.2 hq ((hrows q other).1 hother).2⟩

/-- No object is blamed for being out of order. -/
theorem Blamed.obstacle_ne {r : Record} {p : Nat} {fault : ExtractionFault} (h : r.Blamed p fault)
    (className : String) : fault.obstacle ≠ .notOrdered className := by
  cases h with
  | nameless => simp
  | field named configurable first offends => exact offends.obstacle_ne className

/-- An extraction fails exactly if some object of the tree is inadmissible: if there is nothing but
blanks in its class name, or if it is configurable and has a configured field that does not fit.
The fault is that of the first such object in dependency order.  It is never that an object has no
place in the order. -/
theorem extract_fails (root : Record) :
    let order := ofRecord root
    ((∃ fault, root.extract = .error fault) ↔ ∃ o ∈ root.occurrences, o.record.Inadmissible) ∧
    (∀ fault, root.extract = .error fault ↔
      ∃ p o, order.get? p = some o ∧ o.record.Inadmissible ∧
        (∀ q i, q < p → order.get? q = some i → ¬i.record.Inadmissible) ∧
        o.record.Blamed p fault) ∧
    ∀ fault className, root.extract = .error fault → fault.obstacle ≠ .notOrdered className := by
  refine ⟨?_, fun fault => ?_, fun fault className h => ?_⟩
  · constructor
    · rintro ⟨fault, h⟩
      obtain ⟨i, row, hfirst, -⟩ := (refuses_extract root fault).1 h
      exact ⟨row.2, (nameOf?_of_mem_rows hfirst.mem).1, hfirst.holds⟩
    · rintro ⟨o, ho, hbad⟩
      obtain ⟨row, hrow, rfl⟩ := exists_mem_rows ho
      obtain ⟨i, bad, hfirst⟩ := First.exists_of_mem
        (p := fun row : Nat × Occurrence => row.2.record.Inadmissible) ⟨row, hrow, hbad⟩
      obtain ⟨fault, hfault⟩ := (inadmissible_iff bad.1).1 hfirst.holds
      exact ⟨fault, (refuses_extract root fault).2 ⟨i, bad, hfirst, hfault⟩⟩
  · rw [refuses_extract root fault]
    constructor
    · rintro ⟨p, row, hfirst, hblamed⟩
      obtain ⟨rfl, hget, hbad, hbefore⟩ := first_rows_iff.1 hfirst
      exact ⟨row.1, row.2, hget, hbad, hbefore, hblamed⟩
    · rintro ⟨p, o, hget, hbad, hbefore, hblamed⟩
      exact ⟨p, (p, o), first_rows_iff.2 ⟨rfl, hget, hbad, hbefore⟩, hblamed⟩
  · obtain ⟨i, row, -, hblamed⟩ := (refuses_extract root fault).1 h
    exact hblamed.obstacle_ne className

/-- Of a table with a list in it, a mixed list beside it and an object without a name the list in
the table is blamed. -/
theorem extract_fails_nestedTable :
    let root := observed .model "M"
      [("weights", .object .component "core.Weights" true
          [("size", .long 1), ("table", .map [("a", .long 1), ("b", .list [])]),
            ("values", .list [.long 1, .map []])] []),
        ("unnamed", .object .dataset " " false [] [])]
    root.extract = .error ⟨"weights-0.table.b", .mapHolds "list"⟩ ∧
      (∃ o ∈ root.occurrences, o.record.Inadmissible) ∧
      ∃ p o, (ofRecord root).get? p = some o ∧
        (∀ q i, q < p → (ofRecord root).get? q = some i → ¬i.record.Inadmissible) ∧
        o.record.Blamed p ⟨"weights-0.table.b", .mapHolds "list"⟩ := by
  intro root
  have hfault : root.extract = .error ⟨"weights-0.table.b", .mapHolds "list"⟩ := by rfl
  obtain ⟨hfails, hfaults, -⟩ := extract_fails root
  obtain ⟨p, o, hget, -, hbefore, hblamed⟩ := (hfaults _).1 hfault
  exact ⟨hfault, hfails.1 ⟨_, hfault⟩, p, o, hget, hbefore, hblamed⟩

end Record
end Retrace
