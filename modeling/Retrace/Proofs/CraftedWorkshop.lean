import Retrace.Proofs.FaithfulWorkshop

/-!
# Workshops over any catalog

The recipes of a catalog may ask for any components, trainers included, and may look at their
handles.  A workshop is crafted if every component that it has made is what the recipe of its
configuration makes of the components that the workshop has under the names that the recipe asks
for, and no two names share a trainer.  Looking components up keeps a workshop crafted, because what
was made stays, nothing is put under a name that is being made, and each trainer that is put into a
workshop gets a handle of its own.

Main results:

- Theorem `crafts_lookup`: a component that was looked up is crafted and stays.
- Theorem `crafts_allOfClass`: so are all components of a class, in the order of their names.
-/

namespace Retrace

namespace Recipe

/-- What a recipe makes where components are found by `found?`. -/
def product (found? : String → Option Component) : Recipe → Option Product
  | .done product => some product
  | .fail _ => none
  | .use name next =>
      match found? name with
      | some c => product found? (next c)
      | none => none

/-- More components to be found leave what a recipe makes. -/
theorem product_mono {found? other? : String → Option Component}
    (hmore : ∀ name c, found? name = some c → other? name = some c) {recipe : Recipe}
    {made : Product} (h : recipe.product found? = some made) :
    recipe.product other? = some made := by
  induction recipe with
  | done p => exact h
  | fail e => exact h
  | use name next ih =>
      rw [product] at h ⊢
      cases hc : found? name with
      | none => simp [hc] at h
      | some c =>
          rw [hc] at h
          rw [hmore name c hc]
          exact ih c h

end Recipe

namespace Workshop

variable {β γ : Type} {directory : Directory} {w u v : Workshop}

/-! ## Crafted components -/

/-- The component of a workshop under a name, if it was made. -/
def made? (w : Workshop) (name : String) : Option Component :=
  Keyed.lookup name w.instances

/-- What a component of a workshop is. -/
def product? (w : Workshop) : Component → Option Product
  | .kernel k => some (.kernel k)
  | .dataSource _ source => some (.dataSource source)
  | .trainer handle => (w.trainer? handle).map .trainer

/-- A component is of the kind of its product. -/
theorem kind_of_product? {c : Component} {product : Product} (h : w.product? c = some product) :
    c.kind = product.kind := by
  cases c with
  | kernel k => exact congrArg Product.kind (Option.some.inj h)
  | dataSource handle source => exact congrArg Product.kind (Option.some.inj h)
  | trainer handle =>
      rw [product?, Option.map_eq_some_iff] at h
      obtain ⟨t, -, rfl⟩ := h
      rfl

/-- Whether a component is what the recipe of a configuration makes in a workshop. -/
structure MadeFrom (directory : Directory) (w : Workshop) (config : Configuration)
    (entry : CatalogEntry) (product : Product) (c : Component) : Prop where
  registered : w.catalog.entry? config.className = some entry
  followed : (entry.recipe directory config).product w.made? = some product
  kind : product.kind = entry.kind
  component : w.product? c = some product

/-- Whether a component is what the configuration under a name describes in a workshop. -/
def CraftedAs (directory : Directory) (w : Workshop) (name : String) (c : Component) : Prop :=
  ∃ config entry product, w.configuration? name = some config ∧
    MadeFrom directory w config entry product c

/-- Whether every component that a workshop has made is crafted, and no trainer has two names. -/
structure Crafted (directory : Directory) (w : Workshop) : Prop where
  crafted : ∀ {name c}, w.made? name = some c → CraftedAs directory w name c
  apart : ∀ {name other handle}, w.made? name = some (.trainer handle) →
    w.made? other = some (.trainer handle) → name = other

/-- Whether a component is what the configuration under a name describes, and not a trainer that has
a name already. -/
structure NewAs (directory : Directory) (w : Workshop) (name : String) (c : Component) : Prop where
  crafted : CraftedAs directory w name c
  unnamed : ∀ {handle}, c = .trainer handle → ∀ other, w.made? other ≠ some c

/-- A workshop that has made nothing is crafted. -/
theorem crafted_of_instances_nil (h : w.instances = []) : w.Crafted directory := by
  have hnone : ∀ name, w.made? name = none := by
    intro name
    rw [made?, h]
    rfl
  exact ⟨fun hc => by simp [hnone] at hc, fun hc => by simp [hnone] at hc⟩

/-- A component stays the product that it is. -/
theorem GrowsTo.product? (h : w.GrowsTo v) {c : Component} {product : Product}
    (hc : w.product? c = some product) : v.product? c = some product := by
  cases c with
  | kernel k => exact hc
  | dataSource handle source => exact hc
  | trainer handle =>
      rw [Workshop.product?, Option.map_eq_some_iff] at hc ⊢
      obtain ⟨t, ht, rfl⟩ := hc
      exact ⟨t, h.trainers ht, rfl⟩

/-- A component stays made from its configuration. -/
theorem GrowsTo.madeFrom (h : w.GrowsTo v) {config : Configuration} {entry : CatalogEntry}
    {product : Product} {c : Component} (hc : MadeFrom directory w config entry product c) :
    MadeFrom directory v config entry product c := by
  refine ⟨?_, ?_, hc.kind, h.product? hc.component⟩
  · rw [h.catalog]
    exact hc.registered
  · exact Recipe.product_mono (fun _ _ hmade => h.instances hmade) hc.followed

/-- A crafted component stays crafted. -/
theorem GrowsTo.craftedAs (h : w.GrowsTo v) {name : String} {c : Component}
    (hc : CraftedAs directory w name c) : CraftedAs directory v name c := by
  obtain ⟨config, entry, product, hconfig, hmade⟩ := hc
  refine ⟨config, entry, product, ?_, h.madeFrom hmade⟩
  rw [configuration?, h.configurations]
  exact hconfig

/-- A workshop that has grown by no component stays crafted. -/
theorem Crafted.of_growsTo (hw : w.Crafted directory) (h : w.GrowsTo v)
    (hinstances : v.instances = w.instances) : v.Crafted directory := by
  have hsame : v.made? = w.made? := by
    funext name
    rw [made?, made?, hinstances]
  constructor
  · intro name c hc
    rw [hsame] at hc
    exact h.craftedAs (hw.crafted hc)
  · intro name other handle hname hother
    rw [hsame] at hname hother
    exact hw.apart hname hother

/-- A trainer that has a name is one of the trainers of the workshop. -/
theorem Crafted.handle_lt (hw : w.Crafted directory) {name : String} {handle : Nat}
    (h : w.made? name = some (.trainer handle)) : handle < w.trainers.length := by
  obtain ⟨config, entry, product, -, hfrom⟩ := hw.crafted h
  obtain ⟨t, ht, -⟩ := Option.map_eq_some_iff.1 hfrom.component
  exact (List.getElem?_eq_some_iff.1 ht).1

/-- What is being made does not matter to what was made. -/
theorem Crafted.withMaking (hw : w.Crafted directory) (making : List String) :
    ({ w with making := making } : Workshop).Crafted directory :=
  hw.of_growsTo ⟨rfl, rfl, id, id⟩ rfl

/-! ## Work that crafts -/

/-- Whether a workshop goes on as another one: it has grown, the same components are being made, and
nothing was put under their names. -/
structure Continues (w v : Workshop) : Prop where
  grows : w.GrowsTo v
  making : v.making = w.making
  spared : ∀ name ∈ w.making, v.made? name = w.made? name

theorem Continues.refl (w : Workshop) : w.Continues w :=
  ⟨.refl w, rfl, fun _ _ => rfl⟩

theorem Continues.trans (huw : u.Continues w) (hwv : w.Continues v) : u.Continues v := by
  refine ⟨huw.grows.trans hwv.grows, hwv.making.trans huw.making, ?_⟩
  intro name hname
  rw [hwv.spared name (by rw [huw.making]; exact hname)]
  exact huw.spared name hname

/-- Whether some work, whenever it ends well, leaves a crafted workshop that goes on from the one
before, and yields what it is said to yield. -/
structure Crafts (directory : Directory) (w : Workshop) (work : Work β)
    (post : β → Workshop → Prop) : Prop where
  of_run : ∀ b v, work.run w = (.ok b, v) → v.Crafted directory ∧ w.Continues v ∧ post b v

namespace Crafts

variable {work : Work β} {post : β → Workshop → Prop}

theorem pure (hw : w.Crafted directory) {b : β} (hpost : post b w) :
    Crafts directory w (Pure.pure b) post := by
  constructor
  intro c v hrun
  rw [run_pure, Prod.mk.injEq, Except.ok.injEq] at hrun
  obtain ⟨rfl, rfl⟩ := hrun
  exact ⟨hw, .refl w, hpost⟩

theorem throw {e : Error} : Crafts directory w (MonadExcept.throw e : Work β) post := by
  constructor
  intro b v hrun
  rw [run_throw] at hrun
  exact absurd (Prod.mk.inj hrun).1 (by simp)

/-- Work that crafts step by step crafts. -/
theorem bind {f : β → Work γ} {post' : γ → Workshop → Prop} (h : Crafts directory w work post)
    (hnext : ∀ b v, v.Crafted directory → w.Continues v → post b v →
      Crafts directory v (f b) post') : Crafts directory w (work >>= f) post' := by
  constructor
  intro c v hrun
  rcases hwork : work.run w with ⟨found, u⟩
  cases found with
  | error e =>
      rw [run_bind_error hwork] at hrun
      exact absurd (Prod.mk.inj hrun).1 (by simp)
  | ok b =>
      rw [run_bind_ok hwork] at hrun
      obtain ⟨hu, hcontinues, hpost⟩ := h.of_run b u hwork
      obtain ⟨hv, hmore, hpost'⟩ := (hnext b u hu hcontinues hpost).of_run c v hrun
      exact ⟨hv, hcontinues.trans hmore, hpost'⟩

theorem get_bind {f : Workshop → Work β} (h : Crafts directory w (f w) post) :
    Crafts directory w (get >>= f) post := by
  constructor
  intro b v hrun
  rw [run_get_bind] at hrun
  exact h.of_run b v hrun

theorem mono {post' : β → Workshop → Prop} (h : Crafts directory w work post)
    (hpost : ∀ b v, w.Continues v → post b v → post' b v) : Crafts directory w work post' := by
  constructor
  intro b v hrun
  obtain ⟨hv, hcontinues, hyields⟩ := h.of_run b v hrun
  exact ⟨hv, hcontinues, hpost b v hcontinues hyields⟩

theorem adapt (h : Crafts directory w work post) (name : String) :
    Crafts directory w (work.adapt (Error.within name)) post := by
  constructor
  intro b v hrun
  rcases hwork : work.run w with ⟨found, u⟩
  rw [run_adapt, hwork, Prod.mk.injEq] at hrun
  cases found with
  | error e => simp [Except.mapError] at hrun
  | ok c =>
      simp only [Except.mapError, Except.ok.injEq] at hrun
      obtain ⟨rfl, rfl⟩ := hrun
      exact h.of_run c u hwork

end Crafts

/-! ## Making -/

/-- A product that is put into a workshop is the component, and a trainer has no name yet. -/
theorem crafts_keep (hw : w.Crafted directory) (product : Product) :
    Crafts directory w (keep product) fun c v => v.product? c = some product ∧
      ∀ {handle}, c = .trainer handle → ∀ other, v.made? other ≠ some c := by
  constructor
  intro c v hrun
  cases product with
  | kernel k =>
      obtain ⟨hc, rfl⟩ := Prod.mk.inj hrun
      obtain rfl := Except.ok.inj hc
      exact ⟨hw, .refl w, rfl, by simp⟩
  | dataSource source =>
      have hgrows : w.GrowsTo { w with sources := w.sources + 1 } := ⟨rfl, rfl, id, id⟩
      obtain ⟨hc, rfl⟩ := Prod.mk.inj hrun
      obtain rfl := Except.ok.inj hc
      exact ⟨hw.of_growsTo hgrows rfl, ⟨hgrows, rfl, fun _ _ => rfl⟩, rfl, by simp⟩
  | trainer t =>
      have hgrows : w.GrowsTo { w with trainers := w.trainers ++ [t] } := by
        refine ⟨rfl, rfl, id, ?_⟩
        intro handle other h
        rw [trainer?] at h ⊢
        rw [List.getElem?_append_left (List.getElem?_eq_some_iff.1 h).1, h]
      obtain ⟨hc, rfl⟩ := Prod.mk.inj hrun
      obtain rfl := Except.ok.inj hc
      refine ⟨hw.of_growsTo hgrows rfl, ⟨hgrows, rfl, fun _ _ => rfl⟩,
        by simp [product?, trainer?], ?_⟩
      -- the handle is the number of the trainers so far, and those that have names are below it
      intro _ _ other hother
      exact Nat.lt_irrefl _ (hw.handle_lt hother)

/-- A recipe makes what it makes of the components that it finds. -/
theorem crafts_follow {look : String → Work Component}
    (hlook : ∀ name v, v.Crafted directory →
      Crafts directory v (look name) fun c u => u.made? name = some c)
    (recipe : Recipe) (hw : w.Crafted directory) :
    Crafts directory w (follow look recipe) fun product v =>
      recipe.product v.made? = some product := by
  induction recipe generalizing w with
  | done product => exact .pure hw rfl
  | fail e => exact .throw
  | use name next ih =>
      apply (hlook name w hw).bind
      intro c v hv _ hmade
      apply (ih c hv).mono
      intro product u hcontinues hproduct
      have hstill : u.made? name = some c := hcontinues.grows.instances hmade
      rw [Recipe.product, hstill]
      exact hproduct

/-- Making a component from a configuration that is registered makes what it describes. -/
theorem crafts_make {look : String → Work Component}
    (hlook : ∀ name v, v.Crafted directory →
      Crafts directory v (look name) fun c u => u.made? name = some c)
    {name : String} {config : Configuration} (hw : w.Crafted directory)
    (hconfig : w.configuration? name = some config) :
    Crafts directory w (make look directory config) fun c v => NewAs directory v name c := by
  rw [make]
  apply Crafts.get_bind
  split
  · exact .throw
  · rename_i entry hentry
    apply ((crafts_follow hlook (entry.recipe directory config) hw).adapt config.name).bind
    intro product v hv hcontinues hproduct
    split
    · rename_i hkind
      apply (crafts_keep hv product).mono
      rintro c u hmore ⟨hcomponent, hunnamed⟩
      have hgrows := hcontinues.grows.trans hmore.grows
      refine ⟨⟨config, entry, product, ?_, ?_, ?_, hkind, hcomponent⟩, hunnamed⟩
      · rw [configuration?, hgrows.configurations]
        exact hconfig
      · rw [hgrows.catalog]
        exact hentry
      · exact Recipe.product_mono (fun _ _ hmade => hmore.grows.instances hmade) hproduct
    · exact .throw

/-- What is crafted while a name is being made is crafted, and nothing is put under the name. -/
theorem Crafts.whileMaking {name : String} {work : Work Component}
    (h : Crafts directory { w with making := w.making ++ [name] } work fun c v =>
      NewAs directory v name c) :
    Crafts directory w (whileMaking name work) fun c v =>
      NewAs directory v name c ∧ v.made? name = w.made? name := by
  constructor
  intro c v hrun
  rcases hwork : work.run { w with making := w.making ++ [name] } with ⟨found, u⟩
  cases found with
  | error e =>
      rw [run_whileMaking_error hwork] at hrun
      exact absurd (Prod.mk.inj hrun).1 (by simp)
  | ok d =>
      rw [run_whileMaking_ok hwork] at hrun
      obtain ⟨hd, rfl⟩ := Prod.mk.inj hrun
      obtain rfl := Except.ok.inj hd
      obtain ⟨hu, hcontinues, hnew⟩ := h.of_run d u hwork
      have hgrows : w.GrowsTo { u with making := u.making.dropLast } :=
        ⟨hcontinues.grows.catalog, hcontinues.grows.configurations, hcontinues.grows.instances,
          hcontinues.grows.trainers⟩
      have hspared : ∀ other ∈ w.making ++ [name], u.made? other = w.made? other :=
        hcontinues.spared
      have hleft : u.GrowsTo { u with making := u.making.dropLast } := ⟨rfl, rfl, id, id⟩
      refine ⟨hu.withMaking _, ⟨hgrows, ?_, ?_⟩, ⟨hleft.craftedAs hnew.crafted, hnew.unnamed⟩, ?_⟩
      · simp [hcontinues.making]
      · intro other hother
        exact hspared other (List.mem_append_left _ hother)
      · exact hspared name (List.mem_append_right _ List.mem_cons_self)

/-- A workshop keeps what was made when a component is put under a free name. -/
theorem growsTo_insert {name : String} (hnone : w.made? name = none) (c : Component) :
    w.GrowsTo { w with instances := Keyed.insert name c w.instances } := by
  refine ⟨rfl, rfl, ?_, id⟩
  intro other found hfound
  have hne : other ≠ name := by
    rintro rfl
    exact absurd (hnone.symm.trans hfound) (by simp)
  rw [Keyed.lookup_insert_of_ne hne]
  exact hfound

/-- A crafted workshop may keep a new component under a free name. -/
theorem Crafted.insert (hw : w.Crafted directory) {name : String} {c : Component}
    (hnew : NewAs directory w name c) (hnone : w.made? name = none) :
    ({ w with instances := Keyed.insert name c w.instances } : Workshop).Crafted directory := by
  have hgrows := growsTo_insert hnone c
  have hmade : ∀ {other found},
      Keyed.lookup other (Keyed.insert name c w.instances) = some found →
        other = name ∧ found = c ∨ w.made? other = some found := by
    intro other found hfound
    rw [Keyed.lookup_insert] at hfound
    split at hfound
    · exact .inl ⟨‹_›, (Option.some.inj hfound).symm⟩
    · exact .inr hfound
  constructor
  · intro other found hfound
    rcases hmade hfound with ⟨rfl, rfl⟩ | hold
    · exact hgrows.craftedAs hnew.crafted
    · exact hgrows.craftedAs (hw.crafted hold)
  · intro left right handle hleft hright
    rcases hmade hleft with ⟨rfl, hc⟩ | hold
    · rcases hmade hright with ⟨rfl, -⟩ | hother
      · rfl
      · exact absurd (hc ▸ hother) (hnew.unnamed hc.symm right)
    · rcases hmade hright with ⟨rfl, hc⟩ | hother
      · exact absurd (hc ▸ hold) (hnew.unnamed hc.symm left)
      · exact hw.apart hold hother

/-- A component that was crafted under a free name is kept from then on. -/
theorem crafts_insert {work : Work Component} {name : String} (hnone : w.made? name = none)
    (hmaking : name ∉ w.making)
    (h : Crafts directory w work fun c v =>
      NewAs directory v name c ∧ v.made? name = w.made? name) :
    Crafts directory w (do
        let c ← work
        modify fun w => { w with instances := Keyed.insert name c w.instances }
        return c)
      fun c v => v.made? name = some c := by
  constructor
  intro c v hrun
  rcases hwork : work.run w with ⟨found, u⟩
  cases found with
  | error e =>
      rw [run_bind_error hwork] at hrun
      exact absurd (Prod.mk.inj hrun).1 (by simp)
  | ok d =>
      rw [run_bind_ok hwork, run_modify_bind, run_pure] at hrun
      obtain ⟨hd, rfl⟩ := Prod.mk.inj hrun
      obtain rfl := Except.ok.inj hd
      obtain ⟨hu, hcontinues, hnew, hsame⟩ := h.of_run d u hwork
      rw [hnone] at hsame
      refine ⟨hu.insert hnew hsame, ⟨hcontinues.grows.trans (growsTo_insert hsame d),
        hcontinues.making, ?_⟩, Keyed.lookup_insert_self _ _ _⟩
      intro other hmem
      have hne : other ≠ name := fun heq => hmaking (heq ▸ hmem)
      rw [made?, Keyed.lookup_insert_of_ne hne]
      exact hcontinues.spared other hmem

/-! ## Looking up -/

/-- A component is crafted at whatever depth it is looked up. -/
theorem crafts_lookupWithin (fuel : Nat) (name : String) (hw : w.Crafted directory) :
    Crafts directory w (lookupWithin directory fuel name) fun c v => v.made? name = some c := by
  induction fuel generalizing name w with
  | zero =>
      rw [lookupWithin]
      apply Crafts.get_bind
      split
      · rename_i c hc
        exact .pure hw hc
      · split
        · exact .throw
        · split <;> exact .throw
  | succ fuel ih =>
      rw [lookupWithin]
      apply Crafts.get_bind
      split
      · rename_i c hc
        exact .pure hw hc
      · rename_i hnone
        split
        · exact .throw
        · rename_i config hconfig
          split
          · exact .throw
          · rename_i hmaking
            apply crafts_insert hnone (by simpa using hmaking)
            apply Crafts.whileMaking
            exact crafts_make (fun other v hv => ih other hv) (hw.withMaking _) hconfig

/-- A component that was looked up is crafted and stays. -/
theorem crafts_lookup (name : String) (hw : w.Crafted directory) :
    Crafts directory w (lookup directory name) fun c v => v.made? name = some c := by
  rw [lookup]
  exact (crafts_lookupWithin _ name hw).get_bind

theorem crafts_lookupAll (names : List String) (hw : w.Crafted directory) :
    Crafts directory w (lookupAll directory names) fun found v =>
      found.map Prod.fst = names ∧ ∀ e ∈ found, v.made? e.1 = some e.2 := by
  induction names generalizing w with
  | nil => exact .pure hw (by simp)
  | cons name rest ih =>
      apply (crafts_lookup name hw).bind
      intro c v hv _ hmade
      apply (ih hv).bind
      intro more u hu hcontinues hmore
      apply Crafts.pure hu
      rw [List.map_cons, hmore.1, List.forall_mem_cons]
      exact ⟨rfl, hcontinues.grows.instances hmade, hmore.2⟩

/-- All components of a class are crafted and stay, in the order of their names. -/
theorem crafts_allOfClass (className : String) (hw : w.Crafted directory) :
    Crafts directory w (allOfClass directory className) fun found v =>
      found.map Prod.fst = w.namesWhere (fun c => c.className == className) ∧
        ∀ e ∈ found, v.made? e.1 = some e.2 := by
  rw [allOfClass]
  exact (crafts_lookupAll _ hw).get_bind

end Workshop
end Retrace
