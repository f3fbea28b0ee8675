import Retrace.Proofs.ComparedNodes
import Retrace.Proofs.DoubleEquality
import Retrace.Record.Model

/-!
# What it is to be alike

Two nodes are alike if they are of one kind and agree in what is inside: alike primitives, alike
items one by one, alike last values of every key.  For objects the configured and the recorded
fields agree apart from each other.  Being alike is symmetric and transitive, so a node that is
alike to some node is alike to itself.

Main results:

- Theorem `Node.agree_iff`: fields are alike exactly if the last values of every key are.
- Theorem `Node.alike_iff`: what being alike comes to for two nodes.
- Theorems `Node.alike_symm` and `Node.alike_trans`: being alike is symmetric and transitive.
-/

namespace Retrace

/-! ## Entries that agree -/

/-- Of two related values that may be missing either both are, or none. -/
theorem none_or_some_of_rel {α β : Type} {R : α → β → Prop} {x : Option α} {y : Option β}
    (h : Option.Rel R x y) :
    (x = none ∧ y = none) ∨ ∃ a b, x = some a ∧ y = some b ∧ R a b := by
  rcases h with h | _
  · exact .inr ⟨_, _, rfl, rfl, h⟩
  · exact .inl ⟨rfl, rfl⟩

namespace Keyed

variable {β γ : Type} {R S T : β → β → Prop} {es fs gs : List (String × β)}

/-- Whether every key has related last values in two lists of entries, or none in both. -/
def Agree (R : β → β → Prop) (es fs : List (String × β)) : Prop :=
  ∀ key, Option.Rel R (lookupLast key es) (lookupLast key fs)

/-- A key has related last values or none. -/
theorem Agree.none_or_some (h : Agree R es fs) (key : String) :
    (lookupLast key es = none ∧ lookupLast key fs = none) ∨
      ∃ x y, lookupLast key es = some x ∧ lookupLast key fs = some y ∧ R x y :=
  none_or_some_of_rel (h key)

/-- A key that one of two lists lacks is lacking in the other. -/
theorem Agree.hasKey_eq (h : Agree R es fs) (key : String) : hasKey key es = hasKey key fs := by
  rw [hasKey_eq_isSome_lookupLast, hasKey_eq_isSome_lookupLast]
  rcases h.none_or_some key with ⟨hx, hy⟩ | ⟨x, y, hx, hy, -⟩ <;> rw [hx, hy]
  rfl

/-- Only no entries agree with no entries. -/
theorem Agree.eq_nil (h : Agree R [] fs) : fs = [] := by
  cases fs with
  | nil => rfl
  | cons f rest =>
      have hkey := h.hasKey_eq f.1
      simp [hasKey] at hkey

/-- Entries that agree in one relation agree in another that follows for their values. -/
theorem Agree.imp (h : Agree R es fs) (himp : ∀ e ∈ es, ∀ f ∈ fs, R e.2 f.2 → S e.2 f.2) :
    Agree S es fs := by
  intro key
  rcases h.none_or_some key with ⟨hx, hy⟩ | ⟨x, y, hx, hy, hxy⟩
  · rw [hx, hy]
    exact .none
  · rw [hx, hy]
    exact .some (himp _ (mem_of_lookupLast hx) _ (mem_of_lookupLast hy) hxy)

theorem Agree.flip (h : Agree R es fs) : Agree (fun x y => R y x) fs es := by
  intro key
  rcases h.none_or_some key with ⟨hx, hy⟩ | ⟨x, y, hx, hy, hxy⟩
  · rw [hx, hy]
    exact .none
  · rw [hx, hy]
    exact .some hxy

/-- Two relations in which entries agree one after the other can be put together. -/
theorem Agree.comp (h : Agree R es fs) (h' : Agree S fs gs)
    (hcomp : ∀ e ∈ es, ∀ y z, R e.2 y → S y z → T e.2 z) : Agree T es gs := by
  intro key
  rcases h.none_or_some key with ⟨hx, hy⟩ | ⟨x, y, hx, hy, hxy⟩
  · rcases h'.none_or_some key with ⟨-, hz⟩ | ⟨y', z, hy', -, -⟩
    · rw [hx, hz]
      exact .none
    · simp [hy] at hy'
  · rcases h'.none_or_some key with ⟨hy', -⟩ | ⟨y', z, hy', hz, hyz⟩
    · simp [hy] at hy'
    · obtain rfl : y = y' := Option.some.inj (hy.symm.trans hy')
      rw [hx, hz]
      exact .some (hcomp _ (mem_of_lookupLast hx) y z hxy hyz)

/-- Entries that agree may be put behind entries that agree. -/
theorem Agree.append {es' fs' : List (String × β)} (h : Agree R es fs) (h' : Agree R es' fs') :
    Agree R (es ++ es') (fs ++ fs') := by
  intro key
  rw [lookupLast_append, lookupLast_append]
  rcases h'.none_or_some key with ⟨hx, hy⟩ | ⟨x, y, hx, hy, hxy⟩
  · rw [hx, hy, Option.none_or, Option.none_or]
    exact h key
  · rw [hx, hy, Option.some_or, Option.some_or]
    exact .some hxy

/-- Entries with one key and related values may be put in front. -/
theorem Agree.cons (key : String) {x y : β} (hxy : R x y) (h : Agree R es fs) :
    Agree R ((key, x) :: es) ((key, y) :: fs) := by
  intro other
  rw [lookupLast_cons, lookupLast_cons]
  rcases h.none_or_some other with ⟨hx, hy⟩ | ⟨u, v, hu, hv, huv⟩
  · rw [hx, hy, Option.none_or, Option.none_or]
    split
    · exact .some hxy
    · exact .none
  · rw [hu, hv, Option.some_or, Option.some_or]
    exact .some huv

/-- What lasts in a list are the last values of its keys. -/
theorem mem_lasting_iff {e : String × β} :
    e ∈ lasting ([] : List (String × γ)) es ↔ lookupLast e.1 es = some e.2 := by
  have hlast : lookupLast e.1 (lasting ([] : List (String × γ)) es) = lookupLast e.1 es := by
    rw [lookupLast_lasting]
    rfl
  rw [← hlast]
  constructor
  · intro he
    rw [lookupLast_eq_lookup (nodup_lasting _ es)]
    exact lookup_of_mem (nodup_lasting _ es) he
  · exact fun h => mem_of_lookupLast h

end Keyed

/-! ## Primitives -/

namespace Primitive

/-- Primitives are alike in either order. -/
theorem alike_symm {x y : Primitive} (h : x.alike y = true) : y.alike x = true := by
  cases x with
  | double u =>
      cases y with
      | double v => exact Double.beq_symm h
      | _ => simp [alike] at h
  | _ => cases y <;> simp_all [alike]

/-- Primitives that are alike to the same one are alike. -/
theorem alike_trans {x y z : Primitive} (hxy : x.alike y = true) (hyz : y.alike z = true) :
    x.alike z = true := by
  cases x with
  | double u =>
      cases y with
      | double v =>
          cases z with
          | double w => exact Double.beq_trans hxy hyz
          | _ => simp [alike] at hyz
      | _ => simp [alike] at hxy
  | _ => cases y <;> cases z <;> simp_all [alike]

end Primitive

/-! ## Nodes -/

/-- Whether two records have one kind, class and configurable mark and fields that agree. -/
structure Record.Likeness (r s : Record) : Prop where
  kind : r.kind = s.kind
  className : r.className = s.className
  configurable : r.configurable = s.configurable
  configured : Keyed.Agree (fun n m => n.alike m = true) r.configured s.configured
  recorded : Keyed.Agree (fun n m => n.alike m = true) r.recorded s.recorded

namespace Node

/-- Fields are alike if each lasting value is alike to the last one of its key. -/
theorem alikeFields_eq_all (es fs : Fields) :
    alikeFields es fs = (Keyed.lasting ([] : Fields) es).all fun e =>
      match Keyed.lookupLast e.1 fs with
      | some m => e.2.alike m
      | none => false := by
  induction es with
  | nil => rfl
  | cons e rest ih =>
      rw [alikeFields, Keyed.lasting, ih]
      cases Keyed.hasKey e.1 rest <;> rfl

/-- Fields are alike exactly if the last values of every key are. -/
theorem agree_iff (es fs : Fields) :
    alikeFields es fs = true ∧ keysWithin fs es = true ↔
      Keyed.Agree (fun n m => n.alike m = true) es fs := by
  rw [alikeFields_eq_all, List.all_eq_true, keysWithin, List.all_eq_true]
  constructor
  · rintro ⟨hlasting, hkeys⟩ key
    cases hx : Keyed.lookupLast key es with
    | some n =>
        have halike := hlasting (key, n) (Keyed.mem_lasting_iff.2 hx)
        cases hy : Keyed.lookupLast key fs with
        | some m =>
            rw [hy] at halike
            exact .some halike
        | none => simp [hy] at halike
    | none =>
        cases hy : Keyed.lookupLast key fs with
        | some m =>
            have hkey := hkeys (key, m) (Keyed.mem_of_lookupLast hy)
            rw [Keyed.lookupLast_eq_none_iff.1 hx] at hkey
            exact absurd hkey Bool.false_ne_true
        | none => exact .none
  · intro h
    constructor
    · intro e he
      rcases h.none_or_some e.1 with ⟨hx, -⟩ | ⟨n, m, hx, hy, halike⟩
      · simp [Keyed.mem_lasting_iff.1 he] at hx
      · rw [Keyed.mem_lasting_iff.1 he, Option.some.injEq] at hx
        rw [hy, hx]
        exact halike
    · intro e he
      rw [h.hasKey_eq]
      exact List.any_eq_true.2 ⟨e, he, by simp⟩

/-- Lists are alike if their items are, one by one. -/
theorem alikeItems_iff (xs ys : List Node) :
    alikeItems xs ys = true ↔ List.Forall₂ (fun n m => n.alike m = true) xs ys := by
  induction xs generalizing ys with
  | nil => cases ys <;> simp [alikeItems]
  | cons x xs ih => cases ys <;> simp [alikeItems, ih]

/-- What being alike comes to: primitives with alike values, lists with alike items, maps that agree
by key, and objects whose records do. -/
inductive Likeness : Node → Node → Prop
  | primitives {x y : Primitive} (h : x.alike y = true) : Likeness (.primitive x) (.primitive y)
  | lists {xs ys : List Node} (h : List.Forall₂ (fun n m => n.alike m = true) xs ys) :
      Likeness (.list xs) (.list ys)
  | maps {es fs : Fields} (h : Keyed.Agree (fun n m => n.alike m = true) es fs) :
      Likeness (.map es) (.map fs)
  | objects {r s : Record} (h : r.Likeness s) : Likeness r.node s.node

end Node

/-- Two records are compared as likeness says. -/
theorem Record.alike_iff {r s : Record} : r.alike s = true ↔ r.Likeness s := by
  simp only [alike, node, Node.alike, Bool.and_eq_true, Node.agree_iff, beq_iff_eq]
  constructor
  · rintro ⟨⟨⟨⟨hkind, hclass⟩, hconf⟩, hconfigured⟩, hrecorded⟩
    exact ⟨hkind, hclass, hconf, hconfigured, hrecorded⟩
  · rintro ⟨hkind, hclass, hconf, hconfigured, hrecorded⟩
    exact ⟨⟨⟨⟨hkind, hclass⟩, hconf⟩, hconfigured⟩, hrecorded⟩

/-- The children of records that are alike agree. -/
theorem Record.Likeness.children {r s : Record} (h : r.Likeness s) :
    Keyed.Agree (fun n m => n.alike m = true) r.children s.children := by
  apply Keyed.Agree.cons
  · rw [h.className]
    exact beq_self_eq_true s.className
  · exact h.configured.append h.recorded

namespace Node

/-- Two nodes are compared as likeness says. -/
theorem alike_iff {n m : Node} : n.alike m = true ↔ Likeness n m := by
  constructor
  · intro h
    cases n with
    | primitive x =>
        cases m with
        | primitive y => exact .primitives h
        | _ => simp [alike] at h
    | list xs =>
        cases m with
        | list ys => exact .lists ((alikeItems_iff xs ys).1 h)
        | _ => simp [alike] at h
    | map es =>
        cases m with
        | map fs =>
            rw [alike, Bool.and_eq_true] at h
            exact .maps ((agree_iff es fs).1 h)
        | _ => simp [alike] at h
    | object kind className configurable configured recorded =>
        cases m with
        | object kind' className' configurable' configured' recorded' =>
            exact .objects (@Record.alike_iff ⟨kind, className, configurable, configured, recorded⟩
              ⟨kind', className', configurable', configured', recorded'⟩ |>.1 h)
        | _ => simp [alike] at h
  · intro h
    cases h with
    | primitives h => exact h
    | lists h => exact (alikeItems_iff _ _).2 h
    | maps h =>
        rw [alike, Bool.and_eq_true]
        exact (agree_iff _ _).2 h
    | objects h => exact Record.alike_iff.2 h

/-- What is alike to an object is an object. -/
theorem Likeness.exists_record {r : Record} {m : Node} (h : Likeness r.node m) :
    ∃ s : Record, m = s.node ∧ r.Likeness s := by
  rcases r with ⟨kind, className, configurable, configured, recorded⟩
  generalize hn : Record.node _ = n at h
  cases h with
  | @objects r s h =>
      obtain ⟨rfl, rfl, rfl, rfl, rfl⟩ := Node.object.inj hn
      exact ⟨s, rfl, h⟩
  | _ => exact absurd hn (by simp [Record.node])

/-! ## Symmetry and transitivity -/

/-- Relations between lists are composed item by item. -/
theorem forall₂_comp {R S T : Node → Node → Prop} {xs ys zs : List Node} (h : List.Forall₂ R xs ys)
    (h' : List.Forall₂ S ys zs) (hcomp : ∀ x ∈ xs, ∀ y z, R x y → S y z → T x z) :
    List.Forall₂ T xs zs := by
  induction h generalizing zs with
  | nil =>
      cases h'
      exact .nil
  | cons hxy hrest ih =>
      cases h' with
      | cons hyz hrest' =>
          rw [List.forall_mem_cons] at hcomp
          exact .cons (hcomp.1 _ _ hxy hyz) (ih hrest' hcomp.2)

/-- A configured value lies inside its record. -/
theorem mem_inner_of_configured {r : Record} {e : String × Node} (he : e ∈ r.configured) :
    e.2 ∈ r.node.inner :=
  List.mem_map_of_mem (List.mem_cons_of_mem _ (List.mem_append_left _ he))

/-- A recorded value lies inside its record. -/
theorem mem_inner_of_recorded {r : Record} {e : String × Node} (he : e ∈ r.recorded) :
    e.2 ∈ r.node.inner :=
  List.mem_map_of_mem (List.mem_cons_of_mem _ (List.mem_append_right _ he))

/-- What is alike one way is alike the other way. -/
theorem alike_symm {n m : Node} (h : n.alike m = true) : m.alike n = true := by
  induction n using innerInduction generalizing m with
  | step n ih =>
      have hfields : ∀ {es fs : Fields}, (∀ e ∈ es, e.2 ∈ n.inner) →
          Keyed.Agree (fun n m => n.alike m = true) es fs →
            Keyed.Agree (fun n m => n.alike m = true) fs es := fun hinner hagree =>
        (hagree.imp fun e he f _ halike => ih e.2 (hinner e he) halike).flip
      rw [alike_iff] at h ⊢
      cases h with
      | primitives h => exact .primitives (Primitive.alike_symm h)
      | @lists xs ys h =>
          apply Likeness.lists
          have hitems : List.Forall₂ (fun x y => x ∈ xs ∧ x.alike y = true) xs ys :=
            (List.forall₂_and_left xs ys).2 ⟨fun x hx => hx, h⟩
          exact List.Forall₂.flip (hitems.imp fun x y hxy => ih x hxy.1 hxy.2)
      | maps h => exact .maps (hfields (fun e he => List.mem_map_of_mem he) h)
      | objects h =>
          exact .objects ⟨h.kind.symm, h.className.symm, h.configurable.symm,
            hfields (fun e he => mem_inner_of_configured he) h.configured,
            hfields (fun e he => mem_inner_of_recorded he) h.recorded⟩

/-- What is alike to something alike is alike. -/
theorem alike_trans {n m k : Node} (hnm : n.alike m = true) (hmk : m.alike k = true) :
    n.alike k = true := by
  induction n using innerInduction generalizing m k with
  | step n ih =>
      have hfields : ∀ {es fs gs : Fields}, (∀ e ∈ es, e.2 ∈ n.inner) →
          Keyed.Agree (fun n m => n.alike m = true) es fs →
            Keyed.Agree (fun n m => n.alike m = true) fs gs →
              Keyed.Agree (fun n m => n.alike m = true) es gs := fun hinner hagree hagree' =>
        hagree.comp hagree' fun e he y z hxy hyz => ih e.2 (hinner e he) hxy hyz
      rw [alike_iff] at hnm hmk ⊢
      cases hnm with
      | primitives h =>
          cases hmk with
          | primitives h' => exact .primitives (Primitive.alike_trans h h')
      | lists h =>
          cases hmk with
          | lists h' => exact .lists (forall₂_comp h h' fun x hx y z hxy hyz => ih x hx hxy hyz)
      | maps h =>
          cases hmk with
          | maps h' => exact .maps (hfields (fun e he => List.mem_map_of_mem he) h h')
      | objects h =>
          obtain ⟨t, rfl, h'⟩ := hmk.exists_record
          exact .objects ⟨h.kind.trans h'.kind, h.className.trans h'.className,
            h.configurable.trans h'.configurable,
            hfields (fun e he => mem_inner_of_configured he) h.configured h'.configured,
            hfields (fun e he => mem_inner_of_recorded he) h.recorded h'.recorded⟩

end Node
end Retrace
