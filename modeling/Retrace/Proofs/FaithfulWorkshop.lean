import Retrace.Proofs.DescribedComponents

/-!
# Workshops that are faithful to their configurations

A workshop is faithful if every component that it has made is what its configurations describe.
Looking a component up makes others on the way, and what was made before a failure stays; all the
same the workshop stays faithful and loses nothing that it had.  Where nothing is being made, a
component is found exactly where one is described.

Main results:

- Theorem `keeps_lookup`: looking up keeps a workshop faithful and yields what is described.
- Theorem `exists_run_lookup_iff`: where nothing is being made, a component is found exactly where
  one is described.
-/

namespace Retrace

/-- An error under a name breaks a contract if it did so before. -/
theorem Error.isBreach_within (name : String) (e : Error) :
    (e.within name).isBreach = e.isBreach := by
  cases e <;> rfl

namespace Workshop

/-- What a component of a workshop is, the number of its uses aside. -/
def settings? (w : Workshop) : Component → Option Product
  | .kernel k => some (.kernel k)
  | .dataSource _ source => some (.dataSource source)
  | .trainer handle => (w.trainer? handle).map fun t => (Product.trainer t).unused

/-- Whether a component is what the configurations describe under a name. -/
def Serves (directory : Directory) (w : Workshop) (name : String) (c : Component) : Prop :=
  ∃ product, described directory w.configurations name = some product ∧
    w.settings? c = some product.unused

/-- Whether the components of a workshop are what its configurations describe. -/
structure Faithful (directory : Directory) (w : Workshop) : Prop where
  catalog : w.catalog = .standard
  serves : ∀ {name c}, Keyed.lookup name w.instances = some c → w.Serves directory name c

/-- Whether a workshop has the configurations of another one and all that was made there. -/
structure GrowsTo (w v : Workshop) : Prop where
  catalog : v.catalog = w.catalog
  configurations : v.configurations = w.configurations
  instances : ∀ {name c}, Keyed.lookup name w.instances = some c →
    Keyed.lookup name v.instances = some c
  trainers : ∀ {handle t}, w.trainer? handle = some t → v.trainer? handle = some t

theorem GrowsTo.refl (w : Workshop) : w.GrowsTo w :=
  ⟨rfl, rfl, id, id⟩

theorem GrowsTo.trans {u w v : Workshop} (huw : u.GrowsTo w) (hwv : w.GrowsTo v) : u.GrowsTo v :=
  ⟨hwv.catalog.trans huw.catalog, hwv.configurations.trans huw.configurations,
    fun h => hwv.instances (huw.instances h), fun h => hwv.trainers (huw.trainers h)⟩

/-- A component keeps its settings. -/
theorem GrowsTo.settings? {w v : Workshop} (h : w.GrowsTo v) {c : Component} {product : Product}
    (hc : w.settings? c = some product) : v.settings? c = some product := by
  cases c with
  | kernel k => exact hc
  | dataSource handle source => exact hc
  | trainer handle =>
      rw [Workshop.settings?, Option.map_eq_some_iff] at hc ⊢
      rcases hc with ⟨t, ht, rfl⟩
      exact ⟨t, h.trainers ht, rfl⟩

/-- A component that served serves on. -/
theorem GrowsTo.serves {directory : Directory} {w v : Workshop} (h : w.GrowsTo v) {name : String}
    {c : Component} (hc : w.Serves directory name c) : v.Serves directory name c := by
  rcases hc with ⟨product, hproduct, hsettings⟩
  exact ⟨product, by rw [h.configurations, hproduct], h.settings? hsettings⟩

/-- A workshop that has grown by no component stays faithful. -/
theorem Faithful.of_growsTo {directory : Directory} {w v : Workshop} (hw : w.Faithful directory)
    (h : w.GrowsTo v) (hinstances : v.instances = w.instances) : v.Faithful directory :=
  ⟨h.catalog.trans hw.catalog, fun hc => h.serves (hw.serves (hinstances ▸ hc))⟩

/-- A faithful workshop may keep a component that serves. -/
theorem Faithful.insert {directory : Directory} {w : Workshop} (hw : w.Faithful directory)
    {name : String} {c : Component} (hc : w.Serves directory name c) :
    ({ w with instances := Keyed.insert name c w.instances } : Workshop).Faithful directory := by
  refine ⟨hw.catalog, fun {other found} h => ?_⟩
  simp only [Keyed.lookup_insert] at h
  split at h
  · rename_i heq
    rw [heq, ← Option.some.inj h]
    exact hc
  · exact hw.serves h

/-! ## Work that keeps a workshop faithful -/

/-- Work that leaves a workshop faithful and loses nothing, and what it yields where it succeeds.
Unless a contract is broken it ends with the names that were being made before. -/
inductive Keeps {β : Type} (directory : Directory) (w : Workshop) (work : Work β)
    (post : β → Workshop → Prop) : Prop
  | ok (b : β) (v : Workshop) (run : work.run w = (.ok b, v)) (faithful : v.Faithful directory)
      (grows : w.GrowsTo v) (making : v.making = w.making) (yields : post b v)
  | error (e : Error) (v : Workshop) (run : work.run w = (.error e, v))
      (faithful : v.Faithful directory) (grows : w.GrowsTo v)
      (making : e.isBreach = false → v.making = w.making)

namespace Keeps

variable {β γ : Type} {directory : Directory} {w : Workshop} {work : Work β}
  {post : β → Workshop → Prop}

theorem pure {b : β} (hw : w.Faithful directory) (hb : post b w) :
    Keeps directory w (Pure.pure b) post :=
  .ok b w (run_pure b w) hw (.refl w) rfl hb

theorem throw {e : Error} (hw : w.Faithful directory) :
    Keeps directory w (MonadExcept.throw e) post :=
  .error e w (run_throw e w) hw (.refl w) fun _ => rfl

theorem mono {weaker : β → Workshop → Prop} (h : Keeps directory w work post)
    (hpost : ∀ b v, post b v → weaker b v) : Keeps directory w work weaker := by
  cases h with
  | ok b v run faithful grows making yields =>
      exact .ok b v run faithful grows making (hpost b v yields)
  | error e v run faithful grows making => exact .error e v run faithful grows making

theorem of_run_eq {other : Work β} (hrun : other.run w = work.run w)
    (h : Keeps directory w work post) : Keeps directory w other post := by
  cases h with
  | ok b v run faithful grows making yields =>
      exact .ok b v (hrun.trans run) faithful grows making yields
  | error e v run faithful grows making =>
      exact .error e v (hrun.trans run) faithful grows making

theorem get_bind {next : Workshop → Work β} (h : Keeps directory w (next w) post) :
    Keeps directory w (get >>= next) post :=
  h.of_run_eq (run_get_bind next w)

/-- Steps that keep a workshop faithful one after the other keep it. -/
theorem bind {next : β → Work γ} {last : γ → Workshop → Prop} (h : Keeps directory w work post)
    (hnext : ∀ b v, v.Faithful directory → w.GrowsTo v → post b v →
      Keeps directory v (next b) last) : Keeps directory w (work >>= next) last := by
  cases h with
  | error e v run faithful grows making =>
      exact .error e v (run_bind_error run) faithful grows making
  | ok b v run faithful grows making yields =>
      cases hnext b v faithful grows yields with
      | ok c u runNext faithfulNext growsNext makingNext yieldsNext =>
          exact .ok c u ((run_bind_ok run).trans runNext) faithfulNext (grows.trans growsNext)
            (makingNext.trans making) yieldsNext
      | error e u runNext faithfulNext growsNext makingNext =>
          exact .error e u ((run_bind_ok run).trans runNext) faithfulNext (grows.trans growsNext)
            fun he => (makingNext he).trans making

/-- Work that ended well has kept the workshop faithful and yields what it is said to yield. -/
theorem of_run_ok (h : Keeps directory w work post) {b : β} {v : Workshop}
    (hrun : work.run w = (.ok b, v)) :
    v.Faithful directory ∧ w.GrowsTo v ∧ v.making = w.making ∧ post b v := by
  cases h with
  | ok c u run faithful grows making yields =>
      rw [hrun, Prod.mk.injEq, Except.ok.injEq] at run
      rw [run.1, run.2]
      exact ⟨faithful, grows, making, yields⟩
  | error e u run faithful grows making =>
      rw [hrun, Prod.mk.injEq] at run
      exact absurd run.1 (by simp)

/-- What is yielded may speak of how the workshop has grown. -/
theorem and_grows (h : Keeps directory w work post) :
    Keeps directory w work fun b v => post b v ∧ w.GrowsTo v := by
  cases h with
  | ok b v run faithful grows making yields =>
      exact .ok b v run faithful grows making ⟨yields, grows⟩
  | error e v run faithful grows making => exact .error e v run faithful grows making

/-- Calling an error one of a component breaks no contract and mends none. -/
theorem adapt (h : Keeps directory w work post) (name : String) :
    Keeps directory w (work.adapt (Error.within name)) post := by
  have hrun := run_adapt (Error.within name) work w
  cases h with
  | ok b v run faithful grows making yields =>
      rw [run] at hrun
      exact .ok b v hrun faithful grows making yields
  | error e v run faithful grows making =>
      rw [run] at hrun
      exact .error _ v hrun faithful grows fun he => making (Error.isBreach_within name e ▸ he)

end Keeps

variable {directory : Directory} {w : Workshop}

/-- A product that is put into a workshop keeps its settings. -/
theorem keeps_keep (hw : w.Faithful directory) (product : Product) :
    Keeps directory w (keep product) fun c v => v.settings? c = some product.unused := by
  cases product with
  | kernel k => exact .pure hw rfl
  | dataSource source =>
      have hgrows : w.GrowsTo { w with sources := w.sources + 1 } := ⟨rfl, rfl, id, id⟩
      exact .ok _ _ rfl (hw.of_growsTo hgrows rfl) hgrows rfl rfl
  | trainer t =>
      have hgrows : w.GrowsTo { w with trainers := w.trainers ++ [t] } := by
        refine ⟨rfl, rfl, id, fun {handle other} h => ?_⟩
        rw [trainer?] at h ⊢
        rw [List.getElem?_append_left (List.getElem?_eq_some_iff.1 h).1, h]
      exact .ok _ _ rfl (hw.of_growsTo hgrows rfl) hgrows rfl (by simp [settings?, trainer?])

/-- A recipe that asks for kernels makes what it makes of the kernels that are described. -/
theorem keeps_follow {look : String → Work Component}
    (hlook : ∀ name v, v.Faithful directory →
      Keeps directory v (look name) fun c u => u.Serves directory name c)
    {recipe : Recipe} (hrecipe : recipe.AsksForKernels) (hw : w.Faithful directory) :
    Keeps directory w (follow look recipe) fun product _ =>
      recipe.outcome (kernelNamed w.configurations) = some product := by
  induction hrecipe generalizing w with
  | done product => exact .pure hw rfl
  | fail e => exact .throw hw
  | useKernel name next _ ih =>
      refine (hlook name w hw).bind fun c v hv hgrows hserves => ?_
      rcases hserves with ⟨product, hproduct, hsettings⟩
      cases c with
      | trainer handle => exact .throw hv
      | dataSource handle source => exact .throw hv
      | kernel k =>
          have hkernel : product = .kernel k := by
            cases product <;> simp [settings?, Product.unused] at hsettings ⊢
            exact hsettings.symm
          rw [hkernel, described_eq_kernel_iff, hgrows.configurations] at hproduct
          refine (ih k hv).mono fun made u houtcome => ?_
          rw [Recipe.outcome_useKernel, hproduct, ← hgrows.configurations]
          exact houtcome

/-- Making a component from a configuration that is registered makes what is described. -/
theorem keeps_make {look : String → Work Component}
    (hlook : ∀ name v, v.Faithful directory →
      Keeps directory v (look name) fun c u => u.Serves directory name c)
    {name : String} {config : Configuration} (hw : w.Faithful directory)
    (hconfig : w.configuration? name = some config) :
    Keeps directory w (make look directory config) fun c v => v.Serves directory name c := by
  rw [make]
  apply Keeps.get_bind
  split
  · exact .throw hw
  · rename_i entry hentry
    rw [hw.catalog] at hentry
    have hrecipe := (Catalog.plain_of_entry?_standard hentry).asksForKernels directory config
    refine ((keeps_follow hlook hrecipe hw).adapt config.name).bind
      fun product v hv hgrows houtcome => ?_
    split
    · refine (keeps_keep hv product).and_grows.mono fun c u h => ?_
      refine ⟨product, ?_, h.1⟩
      rw [(hgrows.trans h.2).configurations]
      exact described_eq_some_iff.2 ⟨config, entry, hconfig, hentry, houtcome⟩
    · exact .throw hv

/-- What keeps a workshop while a component is made keeps it. -/
theorem Keeps.whileMaking {name : String} {work : Work Component}
    (h : Keeps directory { w with making := w.making ++ [name] } work fun c v =>
      v.Serves directory name c) :
    Keeps directory w (whileMaking name work) fun c v => v.Serves directory name c := by
  cases h with
  | ok c v run faithful grows making yields =>
      refine .ok c _ (run_whileMaking_ok run) ⟨faithful.catalog, faithful.serves⟩
        ⟨grows.catalog, grows.configurations, grows.instances, grows.trainers⟩ ?_ yields
      simp [making]
  | error e v run faithful grows making =>
      have hrun := run_whileMaking_error run
      cases hbreach : e.isBreach with
      | true =>
          rw [hbreach, if_pos rfl] at hrun
          exact .error e v hrun faithful
            ⟨grows.catalog, grows.configurations, grows.instances, grows.trainers⟩
            (by simp [hbreach])
      | false =>
          rw [hbreach, if_neg Bool.false_ne_true] at hrun
          refine .error e _ hrun ⟨faithful.catalog, faithful.serves⟩
            ⟨grows.catalog, grows.configurations, grows.instances, grows.trainers⟩ fun _ => ?_
          simp [making hbreach]

/-- A component that was not there and serves is kept from then on. -/
theorem keeps_insert {work : Work Component} {name : String}
    (hnone : Keyed.lookup name w.instances = none)
    (h : Keeps directory w work fun c v => v.Serves directory name c) :
    Keeps directory w (do
        let c ← work
        modify fun w => { w with instances := Keyed.insert name c w.instances }
        return c)
      fun c v => v.Serves directory name c ∧ Keyed.lookup name v.instances = some c := by
  cases h with
  | error e v run faithful grows making =>
      exact .error e v (run_bind_error run) faithful grows making
  | ok c v run faithful grows making yields =>
      refine .ok c { v with instances := Keyed.insert name c v.instances } ?_
        (faithful.insert yields)
        ⟨grows.catalog, grows.configurations, fun {other found} hfound => ?_, grows.trainers⟩ making
        ⟨yields, Keyed.lookup_insert_self _ _ _⟩
      · rw [run_bind_ok run, run_modify_bind, run_pure]
      · have hne : other ≠ name := by
          rintro rfl
          simp [hnone] at hfound
        rw [Keyed.lookup_insert_of_ne hne]
        exact grows.instances hfound

/-- Looking up keeps a workshop faithful and yields what is described, which is kept. -/
theorem keeps_lookupWithin (fuel : Nat) (name : String) (hw : w.Faithful directory) :
    Keeps directory w (lookupWithin directory fuel name) fun c v =>
      v.Serves directory name c ∧ Keyed.lookup name v.instances = some c := by
  induction fuel generalizing name w with
  | zero =>
      rw [lookupWithin]
      apply Keeps.get_bind
      split
      · rename_i c hc
        exact .pure hw ⟨hw.serves hc, hc⟩
      · split
        · exact .throw hw
        · split
          · exact .throw hw
          · exact .throw hw
  | succ fuel ih =>
      rw [lookupWithin]
      apply Keeps.get_bind
      split
      · rename_i c hc
        exact .pure hw ⟨hw.serves hc, hc⟩
      · rename_i hnone
        split
        · exact .throw hw
        · rename_i config hconfig
          split
          · exact .throw hw
          · apply keeps_insert hnone
            apply Keeps.whileMaking
            exact keeps_make (fun other v hv => (ih other hv).mono fun _ _ h => h.1)
              ⟨hw.catalog, hw.serves⟩ hconfig

/-- Looking up keeps a workshop faithful and yields what is described, which is kept. -/
theorem keeps_lookup (name : String) (hw : w.Faithful directory) :
    Keeps directory w (lookup directory name) fun c v =>
      v.Serves directory name c ∧ Keyed.lookup name v.instances = some c := by
  rw [lookup]
  exact (keeps_lookupWithin _ name hw).get_bind

/-! ## What is described is found -/

/-- A component that serves under the name of a kernel is the kernel. -/
theorem Serves.eq_kernel {name : String} {c : Component} (h : w.Serves directory name c)
    {k : Kernel} (hk : kernelNamed w.configurations name = some k) : c = .kernel k := by
  rcases h with ⟨product, hproduct, hsettings⟩
  rw [described_eq_kernel_iff.2 hk, Option.some.injEq] at hproduct
  rw [← hproduct] at hsettings
  cases c <;> simp [settings?, Product.unused] at hsettings ⊢
  exact hsettings

/-- A kernel that is described is found even while other components are being made. -/
theorem exists_run_lookupWithin_kernel {fuel : Nat} {name : String} {k : Kernel}
    (hw : w.Faithful directory) (hmaking : name ∉ w.making)
    (hk : kernelNamed w.configurations name = some k) :
    ∃ v, (lookupWithin directory (fuel + 1) name).run w = (.ok (.kernel k), v) := by
  cases hinstance : Keyed.lookup name w.instances with
  | some c =>
      refine ⟨w, ?_⟩
      rw [lookupWithin, run_get_bind, hinstance, ← (hw.serves hinstance).eq_kernel hk]
      rfl
  | none =>
      rcases kernelNamed_eq_some_iff.1 hk with ⟨config, hconfig, hmade⟩
      have hentry : w.catalog.entry? config.className = some ⟨.kernel, Recipe.kernel⟩ := by
        rw [hw.catalog]
        exact Catalog.entry?_of_ofConfiguration hmade
      have hfollow : (follow (lookupWithin directory fuel) (Recipe.kernel directory config)).run
          { w with making := w.making ++ [name] } =
            (.ok (.kernel k), { w with making := w.making ++ [name] }) := by
        rw [Recipe.kernel, hmade]
        rfl
      have hmake := @run_make _ directory config { w with making := w.making ++ [name] } _ _ hentry
        _ hfollow rfl
      exact ⟨_, run_lookupWithin hinstance hconfig hmaking hmake⟩

/-- A recipe that asks for described kernels that are not being made is followed to its end. -/
theorem exists_run_follow {fuel : Nat} {recipe : Recipe} (hrecipe : recipe.AsksForKernels)
    (hw : w.Faithful directory)
    (hmaking : ∀ name k, kernelNamed w.configurations name = some k → name ∉ w.making)
    {product : Product} (houtcome : recipe.outcome (kernelNamed w.configurations) = some product) :
    ∃ v, (follow (lookupWithin directory (fuel + 1)) recipe).run w = (.ok product, v) := by
  induction hrecipe generalizing w with
  | done p =>
      rw [Recipe.outcome, Option.some.injEq] at houtcome
      exact ⟨w, houtcome ▸ run_pure p w⟩
  | fail e => simp [Recipe.outcome] at houtcome
  | useKernel name next _ ih =>
      rw [Recipe.outcome_useKernel, Option.bind_eq_some_iff] at houtcome
      rcases houtcome with ⟨k, hk, houtcome⟩
      obtain ⟨v, hlook⟩ := @exists_run_lookupWithin_kernel _ _ fuel _ _ hw (hmaking name k hk) hk
      obtain ⟨hv, hgrows, hsame, -⟩ := (keeps_lookupWithin (fuel + 1) name hw).of_run_ok hlook
      obtain ⟨u, hnext⟩ := ih k hv
        (fun other l hl => by rw [hsame]; exact hmaking other l (hgrows.configurations ▸ hl))
        (by rw [hgrows.configurations]; exact houtcome)
      exact ⟨u, by rw [Recipe.useKernel, follow, run_bind_ok hlook]; exact hnext⟩

/-- The recipe of what is described under a name is followed to its end while it is being made. -/
theorem exists_run_follow_making {fuel : Nat} {name : String} {config : Configuration}
    {entry : CatalogEntry} {product : Product} (hw : w.Faithful directory)
    (hconfig : w.configuration? name = some config)
    (hentry : Catalog.standard.entry? config.className = some entry)
    (houtcome : (entry.recipe directory config).outcome (kernelNamed w.configurations) =
      some product) (hmaking : w.making = [name]) :
    ∃ v, (follow (lookupWithin directory (fuel + 1)) (entry.recipe directory config)).run w =
      (.ok product, v) := by
  have hplain := Catalog.plain_of_entry?_standard hentry
  cases hself : kernelNamed w.configurations name with
  | none =>
      apply exists_run_follow (hplain.asksForKernels directory config) hw _ houtcome
      intro other k hk
      rw [hmaking, List.mem_singleton]
      rintro rfl
      simp [hself] at hk
  | some k =>
      -- the component is a kernel itself, whose recipe asks for nothing
      rcases kernelNamed_eq_some_iff.1 hself with ⟨found, hfound, hmade⟩
      obtain rfl : found = config := Option.some.inj (hfound.symm.trans hconfig)
      rw [Catalog.entry?_of_ofConfiguration hmade, Option.some.injEq] at hentry
      rw [← hentry] at houtcome ⊢
      simp only [Recipe.kernel, hmade] at houtcome ⊢
      exact ⟨w, by rw [← Option.some.inj houtcome]; rfl⟩

/-- A product can always be put into a workshop. -/
theorem exists_run_keep (product : Product) (w : Workshop) :
    ∃ c v, (keep product).run w = (.ok c, v) := by
  cases product <;> exact ⟨_, _, rfl⟩

/-- Where nothing is being made, what is described is found. -/
theorem exists_run_lookup {name : String} {product : Product} (hw : w.Faithful directory)
    (hmaking : w.making = []) (h : described directory w.configurations name = some product) :
    ∃ c v, (lookup directory name).run w = (.ok c, v) := by
  rcases described_eq_some_iff.1 h with ⟨config, entry, hconfig, hentry, houtcome⟩
  cases hinstance : Keyed.lookup name w.instances with
  | some c =>
      refine ⟨c, w, ?_⟩
      rw [lookup, run_get_bind, depth, lookupWithin, run_get_bind, hinstance]
      rfl
  | none =>
      obtain ⟨fuel, hfuel⟩ : ∃ fuel, w.configurations.length = fuel + 1 :=
        Nat.exists_eq_add_one.2 (List.length_pos_of_mem (List.mem_of_find?_eq_some hconfig))
      obtain ⟨v, hfollow⟩ := @exists_run_follow_making directory
        { w with making := [name] } fuel _ _ _ _ ⟨hw.catalog, hw.serves⟩ hconfig hentry houtcome rfl
      have hkind := (Catalog.plain_of_entry?_standard hentry).kind _ _ _ _ houtcome
      obtain ⟨c, u, hkeep⟩ := exists_run_keep product v
      have hmake := run_make (by rw [← hentry, ← hw.catalog]) hfollow hkind
      rw [hkeep, ← hfuel] at hmake
      exact ⟨c, _, run_lookup hmaking hinstance hconfig hmake⟩

/-- Where nothing is being made, a component is found exactly where one is described. -/
theorem exists_run_lookup_iff {name : String} (hw : w.Faithful directory)
    (hmaking : w.making = []) :
    (∃ c v, (lookup directory name).run w = (.ok c, v)) ↔
      ∃ product, described directory w.configurations name = some product := by
  constructor
  · rintro ⟨c, v, hrun⟩
    obtain ⟨-, hgrows, -, ⟨product, hproduct, -⟩, -⟩ := (keeps_lookup name hw).of_run_ok hrun
    exact ⟨product, hgrows.configurations ▸ hproduct⟩
  · rintro ⟨product, hproduct⟩
    exact exists_run_lookup hw hmaking hproduct

end Workshop
end Retrace
