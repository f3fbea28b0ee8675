import Retrace.Proofs.AlikeNodes
import Retrace.Proofs.StoredRecords
import Retrace.Proofs.UnalignedLists

/-!
# Comparisons see only views

What the comparison of two trees comes to, the report as well as the fault, depends on nothing but
the views of the trees.  Nodes that are alike have one view unless a negative zero is among their
doubles, for it is equal to zero as a number and has a text of its own.  So trees can be replaced by
alike ones without any effect on their comparison, and alike trees do not differ.

Main results:

- Theorem `oneSided_congr`: nodes with one view are reported alike where they stand on one side.
- Theorem `compareNodes_congr`: comparing nodes depends on nothing but their views.
- Theorem `Node.view_eq_of_alike`: alike nodes without negative zeros have one view.
- Theorem `compareTrees_of_alike`: so comparing alike trees comes to the same.
-/

namespace Retrace

/-! ## Maps in key order -/

/-- In key order no entry is replaced by a later one. -/
theorem Keyed.Ascending.lasting_eq {β γ : Type} {entries : List (String × β)}
    (h : Keyed.Ascending entries) : Keyed.lasting ([] : List (String × γ)) entries = entries := by
  induction entries with
  | nil => rfl
  | cons e rest ih =>
      have hkey : Keyed.hasKey e.1 rest = false := by
        rw [Keyed.hasKey_eq_isSome, h.lookup_head]
        rfl
      rw [Keyed.lasting, hkey, ih h.2]
      rfl

namespace Difference

/-- Maps ascend in a list if they do in each item. -/
theorem mapsAscendItems_iff {items : List Node} :
    Node.MapsAscendItems items ↔ ∀ n ∈ items, n.MapsAscend := by
  induction items with
  | nil => simp [Node.MapsAscendItems]
  | cons n rest ih => rw [Node.MapsAscendItems, ih, List.forall_mem_cons]

/-- Maps ascend in fields if they do in each value. -/
theorem mapsAscendFields_iff {fields : Fields} :
    Node.MapsAscendFields fields ↔ ∀ e ∈ fields, e.2.MapsAscend := by
  induction fields with
  | nil => simp [Node.MapsAscendFields]
  | cons e rest ih => rw [Node.MapsAscendFields, ih, List.forall_mem_cons]

/-- In the inner nodes of a node all maps are in key order if they are so in the node. -/
theorem mapsAscend_inner {n : Node} (h : n.MapsAscend) : ∀ x ∈ n.inner, x.MapsAscend := by
  cases n with
  | primitive x => simp [Node.inner]
  | list xs => exact mapsAscendItems_iff.1 h
  | map es => exact List.forall_mem_map.2 (mapsAscendFields_iff.1 h.2)
  | object kind className configurable configured recorded =>
      rw [Node.inner, List.forall_mem_map]
      exact forall_mem_children (fun x => trivial) (mapsAscendFields_iff.1 h.1)
        (mapsAscendFields_iff.1 h.2)

/-- Maps ascend under every key of a node in which they ascend. -/
theorem mapsAscend_children {n : Node} {ns : Fields} (h : n.MapsAscend)
    (hns : children? n = some ns) : ∀ e ∈ ns, e.2.MapsAscend := fun _ he =>
  mapsAscend_inner h _ (Node.mem_inner_of_children hns he)

/-- If one of two nodes of one kind has children, then the other one has some too. -/
theorem exists_children_of_kindName {n m : Node} (h : n.kindName = m.kindName) {ns : Fields}
    (hns : children? n = some ns) : ∃ ms, children? m = some ms := by
  cases n with
  | primitive x => simp [children?] at hns
  | list xs => simp [children?] at hns
  | map es =>
      obtain ⟨fs, rfl⟩ := eq_map_of_kindName h.symm
      exact ⟨fs, rfl⟩
  | object kind className configurable configured recorded =>
      obtain ⟨s, rfl, -⟩ := eq_node_of_kindName h.symm
      exact ⟨s.children, rfl⟩

/-! ## Nodes with one view -/

/-- Whether two nodes, in which maps are in key order, have one view. -/
structure SeenAlike (n n' : Node) : Prop where
  view : n.view = n'.view
  left : n.MapsAscend
  right : n'.MapsAscend

namespace SeenAlike

variable {n n' : Node}

/-- Nodes that are seen alike have kinds of one name. -/
theorem kindName (h : SeenAlike n n') : n.kindName = n'.kindName :=
  kindName_eq_of_view_eq h.view

/-- Primitives that are seen alike are rendered alike. -/
theorem primitives {x x' : Primitive} (h : SeenAlike (.primitive x) (.primitive x')) :
    x.render = x'.render := by
  have hview := h.view
  rwa [Node.view, Node.view, View.text.injEq] at hview

/-- Two lists with one view have items with one view, one by one. -/
theorem items {xs xs' : List Node} (h : SeenAlike (.list xs) (.list xs')) :
    List.Forall₂ SeenAlike xs xs' := by
  have hviews := h.view
  rw [Node.view, Node.view, View.list.injEq, Node.viewItems_eq_map, Node.viewItems_eq_map]
    at hviews
  have hleft := mapsAscendItems_iff.1 h.left
  have hright := mapsAscendItems_iff.1 h.right
  clear h
  induction xs generalizing xs' with
  | nil =>
      rw [List.map_nil, eq_comm, List.map_eq_nil_iff] at hviews
      rw [hviews]
      exact .nil
  | cons x xs ih =>
      cases xs' with
      | nil => simp at hviews
      | cons x' xs' =>
          rw [List.map_cons, List.map_cons, List.cons.injEq] at hviews
          rw [List.forall_mem_cons] at hleft hright
          exact .cons ⟨hviews.1, hleft.1, hright.1⟩ (ih hviews.2 hleft.2 hright.2)

/-- Two nodes with one view have children with one view, by key. -/
theorem children (h : SeenAlike n n') {ns ns' : Fields} (hns : children? n = some ns)
    (hns' : children? n' = some ns') : Keyed.Agree SeenAlike ns ns' := by
  intro key
  have hview := not_differs_iff.1 ((view_eq_iff_of_children h.kindName hns hns').1 h.view key)
  rw [sidesAt] at hview
  cases hx : Keyed.lookupLast key ns with
  | none =>
      cases hy : Keyed.lookupLast key ns' with
      | none => exact .none
      | some m => simp [hx, hy] at hview
  | some n =>
      cases hy : Keyed.lookupLast key ns' with
      | none => simp [hx, hy] at hview
      | some m =>
          rw [hx, hy, Option.map_some, Option.map_some, Option.some.injEq] at hview
          exact .some ⟨hview, mapsAscend_children h.left hns _ (Keyed.mem_of_lookupLast hx),
            mapsAscend_children h.right hns' _ (Keyed.mem_of_lookupLast hy)⟩

end SeenAlike

/-- A function with one value at related items has one list of values. -/
theorem map_eq_of_forall₂ {γ : Type} {R : Node → Node → Prop} {f : Node → γ} {xs xs' : List Node}
    (h : List.Forall₂ R xs xs') (hf : ∀ x ∈ xs, ∀ x' ∈ xs', R x x' → f x = f x') :
    xs.map f = xs'.map f := by
  induction h with
  | nil => rfl
  | @cons x x' rest rest' hx _ ih =>
      have hrest : rest.map f = rest'.map f := ih fun y hy y' hy' =>
        hf y (List.mem_cons_of_mem x hy) y' (List.mem_cons_of_mem x' hy')
      rw [List.map_cons, List.map_cons, hf x List.mem_cons_self x' List.mem_cons_self hx, hrest]

/-! ## One side only -/

/-- The items of one side are told one by one. -/
theorem oneSidedItems_eq_map (side : Side) (items : List Node) :
    oneSidedItems side items = items.map (oneSided side) := by
  induction items with
  | nil => rfl
  | cons n rest ih => rw [oneSidedItems, ih, List.map_cons]

/-- A node with children of which there are none is an empty map. -/
theorem eq_empty_of_children {n : Node} (h : children? n = some []) : n = .map [] := by
  cases n with
  | map es => rw [Option.some.inj h]
  | _ => simp [children?, Record.children] at h

/-- The children of a node that stands on one side only are reported by key. -/
theorem oneSided_of_children (side : Side) {n : Node} {ns : Fields} (hmaps : n.MapsAscend)
    (hns : children? n = some ns) (hne : ns ≠ []) :
    oneSided side n = .nested (Keyed.ofList (ns.map fun e => (e.1, oneSided side e.2))) := by
  cases n with
  | primitive x => simp [children?] at hns
  | list xs => simp [children?] at hns
  | map es =>
      obtain rfl := Option.some.inj hns
      have hascending : Keyed.Ascending (es.map fun e => (e.1, oneSided side e.2)) :=
        hmaps.1.map fun _ => oneSided side
      rw [Keyed.ofList_of_ascending hascending]
      obtain ⟨e, rest, rfl⟩ := List.exists_cons_of_ne_nil hne
      rw [oneSided, oneSidedFields_eq_map, hmaps.1.lasting_eq]
  | object kind className configurable configured recorded =>
      obtain rfl := Option.some.inj hns
      rw [oneSided]
      congr 1
      apply (Keyed.ascending_ofList _).eq_of_lookup (Keyed.ascending_ofList _)
      intro key
      rw [Keyed.lookup_ofList key (List.map _ _), Keyed.lookupLast_map fun _ => oneSided side]
      exact lookup_oneSided_object side className configured recorded key kind configurable

/-- A list that is not empty is told by its items. -/
theorem oneSided_list (side : Side) {xs : List Node} (hne : xs ≠ []) :
    oneSided side (.list xs) = .items (xs.map (oneSided side)) := by
  obtain ⟨x, rest, rfl⟩ := List.exists_cons_of_ne_nil hne
  rw [oneSided, oneSidedItems_eq_map]

/-- Nodes with one view are reported alike where they stand on one side only. -/
theorem oneSided_congr (side : Side) {n n' : Node} (h : SeenAlike n n') :
    oneSided side n = oneSided side n' := by
  induction n using Node.innerInduction generalizing n' with
  | step n ih =>
      cases hns : children? n with
      | some ns =>
          obtain ⟨ns', hns'⟩ := exists_children_of_kindName h.kindName hns
          have hagree := h.children hns hns'
          by_cases hne : ns = []
          · subst hne
            rw [hagree.eq_nil] at hns'
            rw [eq_empty_of_children hns, eq_empty_of_children hns']
          · have hne' : ns' ≠ [] := fun heq => hne (heq ▸ hagree.flip).eq_nil
            rw [oneSided_of_children side h.left hns hne,
              oneSided_of_children side h.right hns' hne']
            congr 1
            rw [Keyed.ofList_eq_iff]
            intro key
            rw [Keyed.lookupLast_map fun _ => oneSided side,
              Keyed.lookupLast_map fun _ => oneSided side]
            rcases hagree.none_or_some key with ⟨hx, hy⟩ | ⟨x, y, hx, hy, hxy⟩
            · rw [hx, hy]
            · have hinner := Node.mem_inner_of_children hns (Keyed.mem_of_lookupLast hx)
              rw [hx, hy, Option.map_some, Option.map_some, ih x hinner hxy]
      | none =>
          cases n with
          | primitive x =>
              obtain ⟨x', rfl⟩ := eq_primitive_of_kindName h.kindName.symm
              rw [oneSided, oneSided, h.primitives]
          | list xs =>
              obtain ⟨xs', rfl⟩ := eq_list_of_kindName h.kindName.symm
              have hitems := h.items
              by_cases hne : xs = []
              · subst hne
                rw [List.forall₂_nil_left_iff.1 hitems]
              · have hne' : xs' ≠ [] := fun heq =>
                  hne (List.forall₂_nil_right_iff.1 (heq ▸ hitems))
                have hsides : xs.map (oneSided side) = xs'.map (oneSided side) :=
                  map_eq_of_forall₂ hitems fun x hx x' _ hxx' => ih x hx hxx'
                rw [oneSided_list side hne, oneSided_list side hne', hsides]
          | map es => simp [children?] at hns
          | object => simp [children?] at hns

/-! ## Both sides -/

/-- Whether comparing a node with any other depends on nothing but the views of the two. -/
def Viewed (n : Node) : Prop :=
  ∀ path n' m m', SeenAlike n n' → SeenAlike m m' → compareNodes path n m = compareNodes path n' m'

/-- Items are compared alike if they have one view, one by one. -/
theorem compareItems_congr {xs xs' ys ys' : List Node} (h : ∀ x ∈ xs, Viewed x)
    (hxs : List.Forall₂ SeenAlike xs xs') (hys : List.Forall₂ SeenAlike ys ys') (path : String)
    (index : Nat) : compareItems path index xs ys = compareItems path index xs' ys' := by
  induction hxs generalizing index ys ys' with
  | nil => rfl
  | cons hx hrest ih =>
      rw [List.forall_mem_cons] at h
      cases hys with
      | nil => rfl
      | cons hy hrest' =>
          rw [compareItems_cons, compareItems_cons, h.1 _ _ _ _ hx hy, ih h.2 hrest']

/-- The keys of both sides are compared alike if their nodes have one view. -/
theorem outcomesByKey_congr {ns ns' ms ms' : Fields} (h : ∀ e ∈ ns, Viewed e.2)
    (hns : Keyed.Agree SeenAlike ns ns') (hms : Keyed.Agree SeenAlike ms ms') (path : String) :
    outcomesByKey path (ns, ms) = outcomesByKey path (ns', ms') := by
  apply (ascending_outcomesByKey path _).eq_of_lookup (ascending_outcomesByKey path _)
  intro key
  rw [lookup_outcomesByKey, lookup_outcomesByKey, sidesAt, sidesAt]
  rcases hns.none_or_some key with ⟨hx, hx'⟩ | ⟨x, x', hx, hx', hxx'⟩ <;>
    rcases hms.none_or_some key with ⟨hy, hy'⟩ | ⟨y, y', hy, hy', hyy'⟩ <;>
      simp only [hx, hx', hy, hy', compareAt, Option.map_some, Option.map_none, Option.some_or,
        Option.none_or]
  · rw [oneSided_congr .right hyy']
  · rw [oneSided_congr .left hxx']
  · rw [h _ (Keyed.mem_of_lookupLast hx) _ _ _ _ hxx' hyy']

/-- Comparing two nodes depends on nothing but their views. -/
theorem compareNodes_congr (n : Node) : Viewed n := by
  induction n using Node.innerInduction with
  | step n ih =>
      intro path n' m m' hn hm
      by_cases hkind : n.kindName = m.kindName
      · have hkind' : n'.kindName = m'.kindName := by rw [← hn.kindName, hkind, hm.kindName]
        cases hns : children? n with
        | some ns =>
            obtain ⟨ns', hns'⟩ := exists_children_of_kindName hn.kindName hns
            obtain ⟨ms, hms⟩ := exists_children_of_kindName hkind hns
            obtain ⟨ms', hms'⟩ := exists_children_of_kindName hm.kindName hms
            have hinner : ∀ e ∈ ns, Viewed e.2 := fun e he =>
              ih e.2 (Node.mem_inner_of_children hns he)
            rw [compareNodes_of_children hkind hns hms, compareNodes_of_children hkind' hns' hms',
              outcomesByKey_congr hinner (hn.children hns hns') (hm.children hms hms')]
        | none =>
            cases n with
            | primitive x =>
                obtain ⟨x', rfl⟩ := eq_primitive_of_kindName hn.kindName.symm
                obtain ⟨y, rfl⟩ := eq_primitive_of_kindName hkind.symm
                obtain ⟨y', rfl⟩ := eq_primitive_of_kindName hm.kindName.symm
                rw [compareNodes, compareNodes, comparePrimitives, comparePrimitives,
                  hn.primitives, hm.primitives]
            | list xs =>
                obtain ⟨xs', rfl⟩ := eq_list_of_kindName hn.kindName.symm
                obtain ⟨ys, rfl⟩ := eq_list_of_kindName hkind.symm
                obtain ⟨ys', rfl⟩ := eq_list_of_kindName hm.kindName.symm
                have hitems : compareItems path 0 xs ys = compareItems path 0 xs' ys' :=
                  compareItems_congr ih hn.items hm.items path 0
                rw [compareNodes, compareNodes, hn.items.length_eq, hm.items.length_eq, hitems]
            | map es => simp [children?] at hns
            | object => simp [children?] at hns
      · have hkind' : n'.kindName ≠ m'.kindName := by rwa [← hn.kindName, ← hm.kindName]
        rw [compareNodes_of_kindName_ne hkind, compareNodes_of_kindName_ne hkind', hn.kindName,
          hm.kindName]

/-- Nodes whose kinds have one name are keyless together. -/
theorem Keyless.of_kindName {n m : Node} (hn : Keyless n) (h : n.kindName = m.kindName) :
    Keyless m := by
  by_contra hm
  obtain ⟨ms, hms⟩ := exists_children hm
  obtain ⟨ns, hns⟩ := exists_children_of_kindName h.symm hms
  rw [children?_eq_none_iff.2 hn] at hns
  simp at hns

/-- Comparing two trees depends on nothing but their views. -/
theorem compareTrees_congr {left left' right right' : Node} (hleft : SeenAlike left left')
    (hright : SeenAlike right right') : compareTrees left right = compareTrees left' right' := by
  by_cases hl : Keyless left
  · rw [compareTrees_of_keyless_left hl, hleft.kindName,
      compareTrees_of_keyless_left (hl.of_kindName hleft.kindName)]
  · have hl' : ¬Keyless left' := fun h => hl (h.of_kindName hleft.kindName.symm)
    by_cases hr : Keyless right
    · rw [compareTrees_of_keyless_right hl hr, hright.kindName,
        compareTrees_of_keyless_right hl' (hr.of_kindName hright.kindName)]
    · have hr' : ¬Keyless right' := fun h => hr (h.of_kindName hright.kindName.symm)
      obtain ⟨ls, hls⟩ := exists_children hl
      obtain ⟨ls', hls'⟩ := exists_children hl'
      obtain ⟨rs, hrs⟩ := exists_children hr
      obtain ⟨rs', hrs'⟩ := exists_children hr'
      rw [compareTrees_eq_collect hls hrs, compareTrees_eq_collect hls' hrs',
        outcomesByKey_congr (fun e _ => compareNodes_congr e.2) (hleft.children hls hls')
          (hright.children hrs hrs')]

/-- Outcomes that tell nothing make an empty report. -/
theorem collect_eq_nil {outcomes : List (String × Outcome)} (h : ∀ e ∈ outcomes, e.2 = .ok none) :
    collect outcomes = .ok [] := by
  induction outcomes with
  | nil => rfl
  | cons e rest ih =>
      rw [List.forall_mem_cons] at h
      rw [collect_cons, h.1, ih h.2]
      rfl

/-- Nothing is reported of two trees with one view. -/
theorem compareTrees_of_seenAlike {left right : Node} (h : SeenAlike left right)
    (hleft : ¬Keyless left) : compareTrees left right = .ok [] := by
  obtain ⟨ls, hls⟩ := exists_children hleft
  obtain ⟨rs, hrs⟩ := exists_children_of_kindName h.kindName hls
  rw [compareTrees_eq_collect hls hrs]
  apply collect_eq_nil
  intro e he
  obtain ⟨f, -, rfl⟩ := List.mem_map.1 he
  have hsame : ¬Differs (sidesAt f.1 (ls, rs)) :=
    (view_eq_iff_of_children h.kindName hls hrs).1 h.view f.1
  obtain ⟨found, hfound⟩ := @compareAt_total "" _ _ (fun e _ => compareNodes_total e.2) hsame
  have hsays := says_of_compareAt (fun e _ => compareNodes_truthful e.2) hfound
  rw [hfound, hsays.eq_none_iff.2 hsame]

end Difference

/-! ## Alike nodes -/

namespace Node

/-- A double in an item is one of the list. -/
theorem mem_doublesItems {items : List Node} {n : Node} (hn : n ∈ items) {x : Float}
    (hx : x ∈ n.doubles) : x ∈ doublesItems items := by
  induction items with
  | nil => simp at hn
  | cons m rest ih =>
      rw [doublesItems, List.mem_append]
      rcases List.mem_cons.1 hn with rfl | hn
      · exact .inl hx
      · exact .inr (ih hn)

/-- A double in a value is one of the fields. -/
theorem mem_doublesFields {fields : Fields} {e : String × Node} (he : e ∈ fields) {x : Float}
    (hx : x ∈ e.2.doubles) : x ∈ doublesFields fields := by
  induction fields with
  | nil => simp at he
  | cons f rest ih =>
      rw [doublesFields, List.mem_append]
      rcases List.mem_cons.1 he with rfl | he
      · exact .inl hx
      · exact .inr (ih he)

/-- The doubles of an inner node are among those of the node. -/
theorem mem_doubles_of_inner {n i : Node} (hi : i ∈ n.inner) {x : Float} (hx : x ∈ i.doubles) :
    x ∈ n.doubles := by
  cases n with
  | primitive v => simp [inner] at hi
  | list xs => exact mem_doublesItems hi hx
  | map es =>
      obtain ⟨e, he, rfl⟩ := List.mem_map.1 hi
      exact mem_doublesFields he hx
  | object kind className configurable configured recorded =>
      obtain ⟨e, he, rfl⟩ := List.mem_map.1 hi
      rw [doubles, List.mem_append]
      rcases List.mem_cons.1 he with rfl | he
      · simp [text, doubles] at hx
      · rcases List.mem_append.1 he with he | he
        · exact .inl (mem_doublesFields he hx)
        · exact .inr (mem_doublesFields he hx)

/-- Fields that agree in what is seen look the same. -/
theorem entries_view_eq_of_agree {es fs : Fields}
    (h : Keyed.Agree (fun n m => n.view = m.view) es fs) :
    Keyed.ofList (viewFields es) = Keyed.ofList (viewFields fs) := by
  rw [entries_view_eq_iff]
  intro key
  rcases h.none_or_some key with ⟨hx, hy⟩ | ⟨n, m, hx, hy, hview⟩
  · rw [hx, hy]
  · rw [hx, hy, Option.map_some, Option.map_some, hview]

/-- An object is seen by its kind and its fields. -/
theorem view_node (r : Record) :
    r.node.view = .object r.kind (Keyed.ofList (viewFields r.children)) :=
  view_object r.kind r.className r.configurable r.configured r.recorded

/-- Alike primitives have one text, negative zeros apart. -/
theorem render_eq_of_alike {x y : Primitive} (h : x.alike y = true)
    (hx : ∀ u ∈ doubles (.primitive x), u ≠ -0) (hy : ∀ v ∈ doubles (.primitive y), v ≠ -0) :
    x.render = y.render := by
  cases x with
  | double u =>
      cases y with
      | double v =>
          rw [Double.eq_of_beq h (hx u (List.mem_singleton_self u))
            (hy v (List.mem_singleton_self v))]
      | _ => simp [Primitive.alike] at h
  | _ => cases y <;> simp_all [Primitive.alike]

/-- Alike nodes have one view, negative zeros apart. -/
theorem view_eq_of_alike {n m : Node} (h : n.alike m = true) (hn : ∀ x ∈ n.doubles, x ≠ -0)
    (hm : ∀ x ∈ m.doubles, x ≠ -0) : n.view = m.view := by
  induction n using innerInduction generalizing m with
  | step n ih =>
      have hinner : ∀ x ∈ n.inner, ∀ y ∈ m.inner, x.alike y = true → x.view = y.view :=
        fun x hx y hy halike => ih x hx halike (fun d hd => hn d (mem_doubles_of_inner hx hd))
          fun d hd => hm d (mem_doubles_of_inner hy hd)
      rw [alike_iff] at h
      cases h with
      | primitives h => rw [view, view, render_eq_of_alike h hn hm]
      | lists h =>
          rw [view, view, viewItems_eq_map, viewItems_eq_map,
            Difference.map_eq_of_forall₂ h hinner]
      | maps h =>
          rw [view, view, entries_view_eq_of_agree (h.imp fun e he f hf =>
            hinner e.2 (List.mem_map_of_mem he) f.2 (List.mem_map_of_mem hf))]
      | @objects r s h =>
          rw [view_node, view_node, h.kind, entries_view_eq_of_agree (h.children.imp
            fun e he f hf => hinner e.2 (List.mem_map_of_mem he) f.2 (List.mem_map_of_mem hf))]

end Node

namespace Difference

/-- Replacing two trees by alike ones has no effect on their comparison, be it a report or a fault,
and nothing is reported of two alike trees with keys, if no tree holds a negative zero.  Both sides
may repeat keys, and have keys of configured fields among the recorded ones. -/
theorem compareTrees_of_alike {a a' b b' : Node} (ha : a.alike a' = true) (hb : b.alike b' = true)
    (hzero : ∀ n ∈ [a, a', b, b'], ∀ x ∈ n.doubles, x ≠ -0)
    (hmaps : ∀ n ∈ [a, a', b, b'], n.MapsAscend) :
    compareTrees a b = compareTrees a' b' ∧ (¬Keyless a → compareTrees a a' = .ok []) := by
  simp only [List.forall_mem_cons] at hzero hmaps
  obtain ⟨za, za', zb, zb', -⟩ := hzero
  obtain ⟨ma, ma', mb, mb', -⟩ := hmaps
  have hseen : SeenAlike a a' := ⟨Node.view_eq_of_alike ha za za', ma, ma'⟩
  have hseen' : SeenAlike b b' := ⟨Node.view_eq_of_alike hb zb zb', mb, mb'⟩
  exact ⟨compareTrees_congr hseen hseen', compareTrees_of_seenAlike hseen⟩

/-- Two alike grids, of which each repeats a key, against two alike maps with a kernel whose
parameter was recorded twice in one of them. -/
theorem compareTrees_of_alike_repeatedKeys :
    let a := Node.object .component "Grid" true [("c", .long 1), ("k", .long 1), ("k", .double 0.5)]
      [("k", .text "seen"), ("gamma", .long 2)]
    let a' := Node.object .component "Grid" true [("k", .double 0.5), ("c", .long 1)]
      [("gamma", .long 2), ("k", .long 9), ("k", .text "seen")]
    let b := Node.map [("gamma", .long 3), ("kernel", .object .component "RBFKernel" true
      [("gamma", .long 1)] [("gamma", .long 4), ("gamma", .long 2)])]
    let b' := Node.map [("gamma", .long 3), ("kernel", .object .component "RBFKernel" true
      [("gamma", .long 1)] [("gamma", .long 2)])]
    a.alike a' = true ∧ b.alike b' = true ∧ compareTrees a b = compareTrees a' b' ∧
      compareTrees a a' = .ok [] := by
  intro a a' b b'
  have ha : a.alike a' = true := by decide +kernel
  have hb : b.alike b' = true := by decide +kernel
  have hzero : ∀ n ∈ [a, a', b, b'], ∀ x ∈ n.doubles, x ≠ -0 := by decide +kernel
  have hmaps : ∀ n ∈ [a, a', b, b'], n.MapsAscend := by
    have hkeys : "gamma" < "kernel" := by decide
    simpa [a, a', b, b', Node.MapsAscend, Node.MapsAscendFields, Keyed.Ascending, Node.long,
      Node.text, Node.double] using hkeys
  obtain ⟨hsame, hnone⟩ := compareTrees_of_alike ha hb hzero hmaps
  exact ⟨ha, hb, hsame, hnone id⟩

end Difference
end Retrace
