import Retrace.Proofs.AlikeNodes

/-!
# What is alike to itself

Being alike is symmetric and transitive, but a double that is no number is alike to nothing.  So a
node is alike to itself exactly if no such double is visible in it, where a field that a later field
of its list replaces hides what is inside.  What is alike to itself is also alike to what it becomes
when fields of its objects are put in another order, if no key occurs twice among them: then every
key keeps its last value.  That holds of hidden objects as well, whose fields nobody sees.

Main results:

- Theorem `alike_self_iff`: a node is alike to itself exactly if it shows no double that is no
  number.
- Theorem `alike_of_reordered`: reordering the fields of one object keeps a node alike.
- Theorem `alike_partialEquivalence`: being alike is a partial equivalence.
-/

namespace Retrace

namespace Keyed

variable {β : Type} {R : β → β → Prop} {es fs : List (String × β)}

/-- Entries agree with themselves exactly if what lasts among them is related to itself. -/
theorem agree_self_iff :
    Agree R es es ↔ ∀ e ∈ lasting ([] : List (String × β)) es, R e.2 e.2 := by
  constructor
  · intro h e he
    have hrel := h e.1
    rw [mem_lasting_iff.1 he] at hrel
    rcases hrel with hrel | _
    exact hrel
  · intro h key
    cases hx : lookupLast key es with
    | none => exact .none
    | some x => exact .some (h (key, x) (mem_lasting_iff.2 hx))

/-- Without repeated keys the last value of a key is its only one. -/
theorem lookupLast_eq_some_iff (hnodup : (es.map Prod.fst).Nodup) {key : String} {value : β} :
    lookupLast key es = some value ↔ (key, value) ∈ es := by
  rw [lookupLast_eq_lookup hnodup]
  exact ⟨mem_of_lookup, fun h => lookup_of_mem hnodup h⟩

/-- In another order entries keep their last values if no key occurs twice. -/
theorem lookupLast_perm (hnodup : (es.map Prod.fst).Nodup) (h : es.Perm fs) (key : String) :
    lookupLast key es = lookupLast key fs := by
  have hnodup' : (fs.map Prod.fst).Nodup := (h.map Prod.fst).nodup_iff.1 hnodup
  apply Option.ext
  intro value
  rw [lookupLast_eq_some_iff hnodup, lookupLast_eq_some_iff hnodup', h.mem_iff]

/-- Entries that agree with themselves agree with what they become in another order if no key occurs
twice. -/
theorem Agree.perm (h : Agree R es es) (hnodup : (es.map Prod.fst).Nodup) (hperm : es.Perm fs) :
    Agree R es fs := by
  intro key
  rw [← lookupLast_perm hnodup hperm]
  exact h key

/-- Entries that agree with themselves agree with what they become when one value gives way to
another.  A value that a later entry replaces need not be related to the new one, nor to itself. -/
theorem Agree.replace {key : String} {x y : β} (h : Agree R (es ++ (key, x) :: fs)
    (es ++ (key, x) :: fs)) (hxy : R x x → R x y) :
    Agree R (es ++ (key, x) :: fs) (es ++ (key, y) :: fs) := by
  intro other
  have hself := h other
  rw [lookupLast_append, lookupLast_cons] at hself ⊢
  rw [lookupLast_append, lookupLast_cons]
  cases hlater : lookupLast other fs with
  | some z => rwa [hlater] at hself
  | none =>
      rw [hlater] at hself
      by_cases hkey : key = other
      · rw [if_pos hkey] at hself ⊢
        rw [if_pos hkey]
        rcases hself with hself | _
        exact .some (hxy hself)
      · rw [if_neg hkey] at hself ⊢
        rwa [if_neg hkey]

end Keyed

/-- A primitive is alike to itself unless it is a double that is no number. -/
theorem Primitive.alike_self_iff (p : Primitive) :
    p.alike p = true ↔ ¬ ∃ x, p = .double x ∧ x.isNaN = true := by
  cases p with
  | double x => rw [alike, Double.beq_self_iff]; simp
  | _ => simp [alike]

namespace Node

/-! ## Doubles that are visible -/

/-- Whether a node is found in another on a way that leads through no field or entry that a later
one of its list replaces. -/
inductive Visible (n : Node) : Node → Prop
  | self : Visible n n
  | item {items : List Node} {m : Node} (hm : m ∈ items) (h : Visible n m) :
      Visible n (.list items)
  | entry {entries : Fields} {e : String × Node} (he : e ∈ Keyed.lasting ([] : Fields) entries)
      (h : Visible n e.2) : Visible n (.map entries)
  | configured {kind : RecordKind} {className : String} {configurable : Bool}
      {configured recorded : Fields} {e : String × Node}
      (he : e ∈ Keyed.lasting ([] : Fields) configured) (h : Visible n e.2) :
      Visible n (.object kind className configurable configured recorded)
  | recorded {kind : RecordKind} {className : String} {configurable : Bool}
      {configured recorded : Fields} {e : String × Node}
      (he : e ∈ Keyed.lasting ([] : Fields) recorded) (h : Visible n e.2) :
      Visible n (.object kind className configurable configured recorded)

/-- Whether a double that is no number is visible in a node. -/
def ShowsNaN (n : Node) : Prop :=
  ∃ x : Float, x.isNaN = true ∧ Visible (.double x) n

/-- Of the primitives only a double that is no number shows that. -/
theorem showsNaN_primitive_iff (p : Primitive) :
    ShowsNaN (.primitive p) ↔ ∃ x, p = .double x ∧ x.isNaN = true := by
  constructor
  · rintro ⟨x, hx, h⟩
    cases h
    exact ⟨x, rfl, hx⟩
  · rintro ⟨x, rfl, hx⟩
    exact ⟨x, hx, .self⟩

theorem showsNaN_list_iff (items : List Node) :
    ShowsNaN (.list items) ↔ ∃ m ∈ items, m.ShowsNaN := by
  constructor
  · rintro ⟨x, hx, h⟩
    cases h with
    | item hm h => exact ⟨_, hm, x, hx, h⟩
  · rintro ⟨m, hm, x, hx, h⟩
    exact ⟨x, hx, .item hm h⟩

/-- A map shows it if a lasting value does. -/
theorem showsNaN_map_iff (entries : Fields) :
    ShowsNaN (.map entries) ↔ ∃ e ∈ Keyed.lasting ([] : Fields) entries, e.2.ShowsNaN := by
  constructor
  · rintro ⟨x, hx, h⟩
    cases h with
    | entry he h => exact ⟨_, he, x, hx, h⟩
  · rintro ⟨e, he, x, hx, h⟩
    exact ⟨x, hx, .entry he h⟩

/-- An object shows it if a lasting value of its fields does. -/
theorem showsNaN_object_iff (kind : RecordKind) (className : String) (configurable : Bool)
    (configured recorded : Fields) :
    ShowsNaN (.object kind className configurable configured recorded) ↔
      (∃ e ∈ Keyed.lasting ([] : Fields) configured, e.2.ShowsNaN) ∨
        ∃ e ∈ Keyed.lasting ([] : Fields) recorded, e.2.ShowsNaN := by
  constructor
  · rintro ⟨x, hx, h⟩
    cases h with
    | configured he h => exact .inl ⟨_, he, x, hx, h⟩
    | recorded he h => exact .inr ⟨_, he, x, hx, h⟩
  · rintro (⟨e, he, x, hx, h⟩ | ⟨e, he, x, hx, h⟩)
    · exact ⟨x, hx, .configured he h⟩
    · exact ⟨x, hx, .recorded he h⟩

/-! ## Nodes that are alike to themselves -/

/-- Lists are alike if their items are, one by one. -/
theorem alike_list_iff (xs ys : List Node) :
    (Node.list xs).alike (.list ys) = true ↔
      List.Forall₂ (fun n m => n.alike m = true) xs ys := by
  rw [alike, alikeItems_iff]

/-- Maps are alike if their last values are, key by key. -/
theorem alike_map_iff (es fs : Fields) :
    (Node.map es).alike (.map fs) = true ↔ Keyed.Agree (fun n m => n.alike m = true) es fs := by
  rw [alike, Bool.and_eq_true, agree_iff]

/-- Objects of one kind and class with one configurable mark are alike exactly if their fields
agree. -/
theorem alike_object_iff (kind : RecordKind) (className : String) (configurable : Bool)
    (configured recorded configured' recorded' : Fields) :
    (Node.object kind className configurable configured recorded).alike
        (.object kind className configurable configured' recorded') = true ↔
      Keyed.Agree (fun n m => n.alike m = true) configured configured' ∧
        Keyed.Agree (fun n m => n.alike m = true) recorded recorded' := by
  simp only [alike, Bool.and_eq_true, agree_iff, beq_self_eq_true, true_and]

/-- A node is alike to itself exactly if no double that is no number is visible in it. -/
theorem alike_self_iff (n : Node) : n.alike n = true ↔ ¬ n.ShowsNaN := by
  induction n using innerInduction with
  | step n ih =>
      have hfields : ∀ es : Fields, (∀ e ∈ es, e.2 ∈ n.inner) →
          (Keyed.Agree (fun n m => n.alike m = true) es es ↔
            ¬ ∃ e ∈ Keyed.lasting ([] : Fields) es, e.2.ShowsNaN) := by
        intro es hinner
        simp only [Keyed.agree_self_iff, not_exists, not_and]
        exact forall₂_congr fun e he => ih e.2 (hinner e (Keyed.mem_of_mem_lasting he))
      cases n with
      | primitive p => rw [showsNaN_primitive_iff, alike, Primitive.alike_self_iff]
      | list xs =>
          simp only [alike_list_iff, List.forall₂_same, showsNaN_list_iff, not_exists, not_and]
          exact forall₂_congr ih
      | map es =>
          rw [alike_map_iff, showsNaN_map_iff]
          exact hfields es fun e he => List.mem_map_of_mem he
      | object kind className configurable configured recorded =>
          rw [alike_object_iff, showsNaN_object_iff, not_or]
          let r : Record := ⟨kind, className, configurable, configured, recorded⟩
          exact and_congr (hfields configured fun e he => @mem_inner_of_configured r e he)
            (hfields recorded fun e he => @mem_inner_of_recorded r e he)

/-! ## Fields in another order -/

/-- Whether a node becomes another one when the configured or the recorded fields of one object in
it, among which no key occurs twice, are put in another order. -/
inductive Reordered : Node → Node → Prop
  | configured {kind : RecordKind} {className : String} {configurable : Bool}
      {configured configured' recorded : Fields} (hnodup : (configured.map Prod.fst).Nodup)
      (h : configured.Perm configured') :
      Reordered (.object kind className configurable configured recorded)
        (.object kind className configurable configured' recorded)
  | recorded {kind : RecordKind} {className : String} {configurable : Bool}
      {configured recorded recorded' : Fields} (hnodup : (recorded.map Prod.fst).Nodup)
      (h : recorded.Perm recorded') :
      Reordered (.object kind className configurable configured recorded)
        (.object kind className configurable configured recorded')
  | item {front back : List Node} {n m : Node} (h : Reordered n m) :
      Reordered (.list (front ++ n :: back)) (.list (front ++ m :: back))
  | entry {front back : Fields} {key : String} {n m : Node} (h : Reordered n m) :
      Reordered (.map (front ++ (key, n) :: back)) (.map (front ++ (key, m) :: back))
  | inConfigured {kind : RecordKind} {className : String} {configurable : Bool}
      {front back recorded : Fields} {key : String} {n m : Node} (h : Reordered n m) :
      Reordered (.object kind className configurable (front ++ (key, n) :: back) recorded)
        (.object kind className configurable (front ++ (key, m) :: back) recorded)
  | inRecorded {kind : RecordKind} {className : String} {configurable : Bool}
      {configured front back : Fields} {key : String} {n m : Node} (h : Reordered n m) :
      Reordered (.object kind className configurable configured (front ++ (key, n) :: back))
        (.object kind className configurable configured (front ++ (key, m) :: back))

/-- A node that is alike to itself is alike to what it becomes by reordering the fields of one
object. -/
theorem alike_of_reordered {n m : Node} (h : Reordered n m) (hself : n.alike n = true) :
    n.alike m = true := by
  induction h with
  | configured hnodup h =>
      rw [alike_object_iff] at hself ⊢
      exact ⟨hself.1.perm hnodup h, hself.2⟩
  | recorded hnodup h =>
      rw [alike_object_iff] at hself ⊢
      exact ⟨hself.1, hself.2.perm hnodup h⟩
  | item _ ih =>
      rw [alike_list_iff, List.forall₂_same] at hself
      rw [alike_list_iff]
      apply List.rel_append
      · exact List.forall₂_same.2 fun x hx => hself x (List.mem_append_left _ hx)
      · refine .cons (ih (hself _ (by simp))) ?_
        exact List.forall₂_same.2 fun x hx => hself x (by simp [hx])
  | entry _ ih =>
      rw [alike_map_iff] at hself ⊢
      exact hself.replace ih
  | inConfigured _ ih =>
      rw [alike_object_iff] at hself ⊢
      exact ⟨hself.1.replace ih, hself.2⟩
  | inRecorded _ ih =>
      rw [alike_object_iff] at hself ⊢
      exact ⟨hself.1, hself.2.replace ih⟩

/-- Being alike is symmetric and transitive, a node is alike to itself exactly if no double that is
no number is visible in it, and such a node stays alike when fields are put in another order
anywhere in it. -/
theorem alike_partialEquivalence :
    (∀ n m : Node, n.alike m = true → m.alike n = true) ∧
      (∀ n m k : Node, n.alike m = true → m.alike k = true → n.alike k = true) ∧
      (∀ n : Node, n.alike n = true ↔ ¬ n.ShowsNaN) ∧
      ∀ n m : Node, ¬ n.ShowsNaN → Relation.ReflTransGen Reordered n m → n.alike m = true := by
  refine ⟨fun n m => alike_symm, fun n m k => alike_trans, alike_self_iff, ?_⟩
  intro n m hshows hreordered
  induction hreordered with
  | refl => exact (alike_self_iff n).2 hshows
  | tail _ hstep ih =>
      -- what was reached so far is alike to itself, being alike to the node that it came from
      exact alike_trans ih (alike_of_reordered hstep (alike_trans (alike_symm ih) ih))

/-- A kernel whose first width is no number but replaced, in two orders of what was recorded of it,
and one whose last width is no number. -/
theorem alike_partialEquivalence_replaced :
    let kernel := Node.object .component "RBFKernel" true
      [("gamma", .double (0 / 0)), ("gamma", .double 0.5)]
    let here := Node.list [kernel [("rows", .long 4), ("seed", .long 7)]]
    let there := Node.list [kernel [("seed", .long 7), ("rows", .long 4)]]
    let broken := Node.object .component "RBFKernel" true
      [("gamma", .double 0.5), ("gamma", .double (0 / 0))] []
    ¬ here.ShowsNaN ∧ Relation.ReflTransGen Reordered here there ∧ here.alike there = true ∧
      there.alike here = true ∧ there.alike there = true ∧ broken.ShowsNaN ∧
      broken.alike broken = false := by
  intro kernel here there broken
  obtain ⟨hsymm, htrans, hself, hreordered⟩ := alike_partialEquivalence
  have hhere : ¬ here.ShowsNaN := (hself here).1 (by decide +kernel)
  have hsteps : Relation.ReflTransGen Reordered here there :=
    .single (@Reordered.item [] [] _ _ (.recorded (by decide) (.swap _ _ _)))
  have hthere := hreordered here there hhere hsteps
  have hback := hsymm here there hthere
  have hbroken : broken.ShowsNaN :=
    ⟨0 / 0, by decide +kernel, .configured (e := ("gamma", .double (0 / 0)))
      (by simp [Keyed.lasting, Keyed.hasKey]) .self⟩
  refine ⟨hhere, hsteps, hthere, hback, htrans there here there hback hthere, hbroken, ?_⟩
  exact Bool.eq_false_iff.2 fun h => (hself broken).1 h hbroken

end Node
end Retrace
