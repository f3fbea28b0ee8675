import Retrace.Proofs.Extraction
import Retrace.Workshop

/-!
# What a workshop does

Runs of steps are followed one step after the other.  Configurations with different names are
registered as they stand, and a component is made from the configuration of its name.

Main results:

- Theorem `run_add`: configurations with different names can all be registered in a new workshop.
- Theorem `run_lookup_file`: looking a file source up loads the file.
-/

namespace Retrace

/-! ## Runs of steps -/

section Runs

variable {ε σ β γ : Type}

/-- Steps over a state are run one after the other. -/
theorem state_bind (x : StateM σ β) (f : β → StateM σ γ) (s : σ) :
    (x >>= f) s = f (x s).1 (x s).2 := rfl

/-- A step and what follows it, run from a state. -/
theorem run_bind (x : ExceptT ε (StateM σ) β) (f : β → ExceptT ε (StateM σ) γ) (s : σ) :
    (x >>= f).run s =
      match x.run s with
      | (.ok b, t) => (f b).run t
      | (.error e, t) => (.error e, t) := by
  rw [ExceptT.run_bind, state_bind]
  cases (x.run s : Except ε β × σ) with
  | mk found t => cases found <;> rfl

/-- After a step that ended well the next one is run. -/
theorem run_bind_ok {x : ExceptT ε (StateM σ) β} {f : β → ExceptT ε (StateM σ) γ} {s t : σ} {b : β}
    (h : x.run s = (.ok b, t)) : (x >>= f).run s = (f b).run t := by
  rw [run_bind, h]

/-- After a step that failed nothing is run. -/
theorem run_bind_error {x : ExceptT ε (StateM σ) β} {f : β → ExceptT ε (StateM σ) γ} {s t : σ}
    {e : ε} (h : x.run s = (.error e, t)) : (x >>= f).run s = (.error e, t) := by
  rw [run_bind, h]

/-- What follows a look at the state is run with it. -/
theorem run_get_bind (f : σ → ExceptT ε (StateM σ) γ) (s : σ) :
    (get >>= f).run s = (f s).run s :=
  run_bind_ok rfl

/-- What follows a change is run in the changed state. -/
theorem run_modify_bind (g : σ → σ) (f : Unit → ExceptT ε (StateM σ) γ) (s : σ) :
    ((modify g : ExceptT ε (StateM σ) PUnit) >>= f).run s = (f ()).run (g s) :=
  run_bind_ok rfl

theorem run_pure (b : β) (s : σ) : (pure b : ExceptT ε (StateM σ) β).run s = (.ok b, s) := rfl

theorem run_throw (e : ε) (s : σ) : (throw e : ExceptT ε (StateM σ) β).run s = (.error e, s) := rfl

theorem run_tryCatch_ok {x : ExceptT ε (StateM σ) β} {handler : ε → ExceptT ε (StateM σ) β}
    {s t : σ} {b : β} (h : x.run s = (.ok b, t)) : (tryCatch x handler).run s = (.ok b, t) := by
  have hcatch : (tryCatch x handler).run = x.run >>= fun found =>
      match found with
      | .ok b => pure (.ok b)
      | .error e => (handler e).run := rfl
  rw [hcatch, state_bind, h]
  rfl

/-- The error of some work is handled where the work left the state. -/
theorem run_tryCatch_error {x : ExceptT ε (StateM σ) β} {handler : ε → ExceptT ε (StateM σ) β}
    {s t : σ} {e : ε} (h : x.run s = (.error e, t)) :
    (tryCatch x handler).run s = (handler e).run t := by
  have hcatch : (tryCatch x handler).run = x.run >>= fun found =>
      match found with
      | .ok b => pure (.ok b)
      | .error e => (handler e).run := rfl
  rw [hcatch, state_bind, h]

/-- Adapting errors touches neither the result of a run that ends well nor the state. -/
theorem run_adapt {ε' : Type} (f : ε → ε') (x : ExceptT ε (StateM σ) β) (s : σ) :
    (x.adapt f).run s = ((x.run s).1.mapError f, (x.run s).2) := rfl

end Runs

namespace Workshop

/-! ## Registering -/

/-- A workshop with configurations from which nothing was made. -/
def holding (catalog : Catalog) (configs : List Configuration) : Workshop :=
  { ofCatalog catalog with configurations := configs }

/-- A configuration is registered unless its name is taken. -/
theorem run_addOne (c : Configuration) (w : Workshop) :
    (addOne c).run w =
      if (w.configuration? c.name).isSome then (.error (.component c.name .registeredTwice), w)
      else (.ok (), { w with configurations := w.configurations ++ [c] }) := by
  rw [addOne, run_get_bind]
  split <;> rfl

/-- Registering that succeeds puts the configurations behind those that are there. -/
theorem run_add_ok {configs : List Configuration} {w v : Workshop}
    (h : (add configs).run w = (.ok (), v)) :
    v = { w with configurations := w.configurations ++ configs } := by
  induction configs generalizing w with
  | nil =>
      rw [add, run_pure, Prod.mk.injEq] at h
      rw [← h.2, List.append_nil]
  | cons c rest ih =>
      rw [add, run_bind, run_addOne] at h
      by_cases hnew : (w.configuration? c.name).isSome = true
      · rw [if_pos hnew] at h
        exact absurd (Prod.mk.inj h).1 (by simp)
      · rw [if_neg hnew] at h
        rw [ih h]
        simp

/-- Configurations with new and different names can all be registered. -/
theorem run_add {configs : List Configuration} {w : Workshop}
    (h : ((w.configurations ++ configs).map Configuration.name).Nodup) :
    (add configs).run w = (.ok (), { w with configurations := w.configurations ++ configs }) := by
  induction configs generalizing w with
  | nil => rw [add, run_pure, List.append_nil]
  | cons c rest ih =>
      have hnew : w.configuration? c.name = none := by
        rw [configuration?, List.find?_eq_none]
        intro d hd hname
        rw [List.map_append, List.nodup_append] at h
        exact h.2.2 d.name (List.mem_map_of_mem hd) c.name (by simp) (by simpa using hname)
      have hone : (addOne c).run w =
          (.ok (), { w with configurations := w.configurations ++ [c] }) := by
        rw [run_addOne, hnew]
        rfl
      rw [add, run_bind_ok hone, ih (by simpa using h)]
      simp

/-- Where names are different a configuration is found by its name. -/
theorem configuration?_of_mem {w : Workshop}
    (hnodup : (w.configurations.map Configuration.name).Nodup)
    {c : Configuration} (hc : c ∈ w.configurations) : w.configuration? c.name = some c := by
  rw [configuration?]
  generalize w.configurations = configs at *
  induction configs with
  | nil => simp at hc
  | cons d rest ih =>
      rw [List.map_cons, List.nodup_cons] at hnodup
      rw [List.find?_cons]
      rcases List.mem_cons.1 hc with rfl | hc
      · simp
      · have hne : (d.name == c.name) = false := by
          rw [beq_eq_false_iff_ne]
          exact fun heq => hnodup.1 (heq ▸ List.mem_map_of_mem hc)
        rw [hne]
        exact ih hnodup.2 hc

/-! ## Making -/

/-- Work that ends well under a name takes the name away again. -/
theorem run_whileMaking_ok {β : Type} {w : Workshop} {name : String} {work : Work β} {b : β}
    {v : Workshop} (h : work.run { w with making := w.making ++ [name] } = (.ok b, v)) :
    (whileMaking name work).run w = (.ok b, { v with making := v.making.dropLast }) := by
  rw [whileMaking, run_modify_bind]
  apply run_tryCatch_ok
  rw [run_bind_ok h, endMaking, run_modify_bind]
  rfl

/-- What is made under a name that is not being made. -/
theorem run_lookupWithin {directory : Directory} {fuel : Nat} {name : String} {w : Workshop}
    {c : Configuration} (hinstance : Keyed.lookup name w.instances = none)
    (hconfig : w.configuration? name = some c) (hmaking : name ∉ w.making) {found : Component}
    {v : Workshop} (h : (make (lookupWithin directory fuel) directory c).run
      { w with making := w.making ++ [name] } = (.ok found, v)) :
    (lookupWithin directory (fuel + 1) name).run w =
      (.ok found, { v with
        making := v.making.dropLast, instances := Keyed.insert name found v.instances }) := by
  rw [lookupWithin, run_get_bind, hinstance]
  simp only [hconfig, List.contains_eq_mem, hmaking, decide_false, Bool.false_eq_true, if_false]
  rw [run_bind_ok (run_whileMaking_ok h), run_modify_bind]
  rfl

/-- What is made under a name, when nothing is being made. -/
theorem run_lookup {directory : Directory} {name : String} {w : Workshop} {c : Configuration}
    (hmaking : w.making = []) (hinstance : Keyed.lookup name w.instances = none)
    (hconfig : w.configuration? name = some c) {found : Component} {v : Workshop}
    (h : (make (lookupWithin directory w.configurations.length) directory c).run
      { w with making := [name] } = (.ok found, v)) :
    (lookup directory name).run w =
      (.ok found, { v with
        making := v.making.dropLast, instances := Keyed.insert name found v.instances }) := by
  rw [lookup, run_get_bind, depth]
  apply run_lookupWithin hinstance hconfig (by simp [hmaking])
  rw [hmaking]
  exact h

/-- Work that fails under a name fails with its error, and unless a contract was broken the name is
no longer among those that are being made. -/
theorem run_whileMaking_error {β : Type} {w : Workshop} {name : String} {work : Work β} {e : Error}
    {v : Workshop}
    (h : work.run { w with making := w.making ++ [name] } = (.error e, v)) :
    (whileMaking name work).run w =
      (.error e, if e.isBreach then v else { v with making := v.making.dropLast }) := by
  rw [whileMaking, run_modify_bind, run_tryCatch_error (run_bind_error h)]
  cases hbreach : e.isBreach with
  | true => simp [run_throw]
  | false =>
      simp only [Bool.false_eq_true, if_false]
      rw [endMaking, run_modify_bind, run_throw]

/-- Looking up where nothing was made fails as the making fails. -/
theorem run_lookup_error {directory : Directory} {name : String} {w : Workshop} {c : Configuration}
    (hmaking : w.making = []) (hinstance : Keyed.lookup name w.instances = none)
    (hconfig : w.configuration? name = some c) {e : Error} {v : Workshop}
    (h : (make (lookupWithin directory w.configurations.length) directory c).run
      { w with making := [name] } = (.error e, v)) :
    ∃ u, (lookup directory name).run w = (.error e, u) := by
  have hwhile := @run_whileMaking_error _ w name
    (make (lookupWithin directory w.configurations.length) directory c) e v
    (by rw [hmaking]; exact h)
  rw [lookup, run_get_bind, depth, lookupWithin, run_get_bind, hinstance]
  simp only [hconfig, hmaking, List.contains_nil, Bool.false_eq_true, if_false]
  exact ⟨_, run_bind_error hwhile⟩

/-- A recipe that ends with a product of the kind of its class makes the product. -/
theorem run_make {look : String → Work Component} {directory : Directory} {c : Configuration}
    {w v : Workshop} {entry : CatalogEntry} (hentry : w.catalog.entry? c.className = some entry)
    {product : Product}
    (hfollow : (follow look (entry.recipe directory c)).run w = (.ok product, v))
    (hkind : product.kind = entry.kind) :
    (make look directory c).run w = (keep product).run v := by
  have hadapt : ((follow look (entry.recipe directory c)).adapt (Error.within c.name)).run w =
      (.ok product, v) := by
    rw [run_adapt, hfollow]
    rfl
  rw [make, run_get_bind]
  simp only [hentry]
  rw [run_bind_ok hadapt, if_pos hkind]

/-- A recipe that ends with an error makes nothing. -/
theorem run_make_of_follow_error {look : String → Work Component} {directory : Directory}
    {c : Configuration} {w v : Workshop} {entry : CatalogEntry}
    (hentry : w.catalog.entry? c.className = some entry) {e : Error}
    (hfollow : (follow look (entry.recipe directory c)).run w = (.error e, v)) :
    (make look directory c).run w = (.error (e.within c.name), v) := by
  have hadapt : ((follow look (entry.recipe directory c)).adapt (Error.within c.name)).run w =
      (.error (e.within c.name), v) := by
    rw [run_adapt, hfollow]
    rfl
  rw [make, run_get_bind]
  simp only [hentry]
  exact run_bind_error hadapt

/-- The class of files of a format is in the standard catalog. -/
theorem entry?_fileClass (format : DataFormat) :
    Catalog.standard.entry? (DataSource.fileClass format) =
      some ⟨.dataSource, Recipe.file format⟩ := by
  cases format <;> rfl

/-- The recipe of a file loads the file at the path that its configuration names. -/
theorem recipe_file {format : DataFormat} {directory : Directory} {c : Configuration}
    {path : String} (hpath : c.property? "path" = some (.value path)) :
    Recipe.file format directory c =
      .ofResult ((DataSource.ofFile format directory (.ofText path)).map .dataSource) := by
  simp only [Recipe.file, Configuration.checked, Configuration.text, Configuration.text?, hpath,
    Except.mapError, bind, Except.bind, pure, Except.pure]
  cases DataSource.ofFile format directory (.ofText path) <;> rfl

section FileSources

variable {directory : Directory} {name path : String} {w : Workshop} {c : Configuration}
  {format : DataFormat} (hcatalog : w.catalog = .standard) (hmaking : w.making = [])
  (hinstance : Keyed.lookup name w.instances = none) (hconfig : w.configuration? name = some c)
  (hclass : c.className = DataSource.fileClass format)
  (hpath : c.property? "path" = some (.value path))
include hcatalog hmaking hinstance hconfig hclass hpath

/-- Looking a file source up loads the file. -/
theorem run_lookup_file {source : DataSource}
    (hfile : DataSource.ofFile format directory (.ofText path) = .ok source) :
    (lookup directory name).run w =
      (.ok (.dataSource w.sources source), { w with
        sources := w.sources + 1
        instances := Keyed.insert name (.dataSource w.sources source) w.instances }) := by
  have hentry : ({ w with making := [name] } : Workshop).catalog.entry? c.className =
      some ⟨.dataSource, Recipe.file format⟩ := by
    rw [hclass, ← entry?_fileClass format, ← hcatalog]
  have hfollow : (follow (lookupWithin directory w.configurations.length)
      (Recipe.file format directory c)).run { w with making := [name] } =
        (.ok (.dataSource source), { w with making := [name] }) := by
    rw [recipe_file hpath, hfile]
    rfl
  have hmake := run_make hentry hfollow rfl
  rw [run_lookup hmaking hinstance hconfig hmake]
  simp [hmaking]

/-- Looking a file source up fails where the file cannot be loaded. -/
theorem run_lookup_file_error {e : Error}
    (hfile : DataSource.ofFile format directory (.ofText path) = .error e) :
    ∃ v, (lookup directory name).run w = (.error (e.within c.name), v) := by
  have hentry : ({ w with making := [name] } : Workshop).catalog.entry? c.className =
      some ⟨.dataSource, Recipe.file format⟩ := by
    rw [hclass, ← entry?_fileClass format, ← hcatalog]
  have hfollow : (follow (lookupWithin directory w.configurations.length)
      (Recipe.file format directory c)).run { w with making := [name] } =
        (.error e, { w with making := [name] }) := by
    rw [recipe_file hpath, hfile]
    rfl
  exact run_lookup_error hmaking hinstance hconfig (run_make_of_follow_error hentry hfollow)

end FileSources

/-! ## Kernels and trainers -/

/-- Looking a kernel up makes the kernel that its configuration describes. -/
theorem run_lookupWithin_kernel {directory : Directory} {fuel : Nat} {name : String} {w : Workshop}
    {c : Configuration} {k : Kernel} (hcatalog : w.catalog = .standard)
    (hmaking : name ∉ w.making) (hinstance : Keyed.lookup name w.instances = none)
    (hconfig : w.configuration? name = some c) (hclass : c.className = k.record.className)
    (hkernel : Kernel.ofConfiguration c = .ok k) :
    (lookupWithin directory (fuel + 1) name).run w =
      (.ok (.kernel k), { w with instances := Keyed.insert name (.kernel k) w.instances }) := by
  have hentry : ({ w with making := w.making ++ [name] } : Workshop).catalog.entry? c.className =
      some ⟨.kernel, Recipe.kernel⟩ := by
    have hstandard : Catalog.standard.entry? k.record.className =
        some ⟨.kernel, Recipe.kernel⟩ := by cases k <;> rfl
    rw [hclass, ← hstandard, ← hcatalog]
  have hfollow : (follow (lookupWithin directory fuel) (Recipe.kernel directory c)).run
      { w with making := w.making ++ [name] } =
        (.ok (.kernel k), { w with making := w.making ++ [name] }) := by
    rw [Recipe.kernel, hkernel]
    rfl
  have hmake := @run_make _ directory c _ _ _ hentry _ hfollow rfl
  rw [run_lookupWithin hinstance hconfig hmaking hmake]
  simp

/-- The recipe of trainers asks for the kernel and ends with the trainer. -/
theorem run_follow_trainer {look : String → Work Component} {directory : Directory}
    {c : Configuration} {t : Trainer} {kernelName : String} {w v : Workshop}
    (htrainer : Trainer.ofConfiguration c = .ok { t with kernel := .linear })
    (hreference : c.property? "kernel" = some (.component kernelName))
    (hvalid : t.settings.fault? = none)
    (hlook : (look kernelName).run w = (.ok (.kernel t.kernel), v)) :
    (follow look (Recipe.trainer directory c)).run w = (.ok (.trainer t), v) := by
  have hchecked : c.checked "kernel" Configuration.reference? = .ok (some kernelName) := by
    simp [Configuration.checked, Configuration.reference?, hreference, Except.mapError]
  have hdone : Recipe.ofTrainer c.name t = .done (.trainer t) := by
    rw [Recipe.ofTrainer, hvalid]
  rw [Recipe.trainer, htrainer]
  simp only [hchecked]
  rw [Recipe.useKernel, follow, run_bind_ok hlook]
  simp only
  rw [hdone]
  rfl

/-- Looking a trainer up makes its kernel and then the trainer. -/
theorem run_lookup_trainer {directory : Directory} {name kernelName : String} {w : Workshop}
    {c k : Configuration} {t : Trainer} (hcatalog : w.catalog = .standard)
    (hmaking : w.making = []) (hinstances : w.instances = [])
    (hconfig : w.configuration? name = some c) (hclass : c.className = Trainer.className)
    (htrainer : Trainer.ofConfiguration c = .ok { t with kernel := .linear })
    (hreference : c.property? "kernel" = some (.component kernelName))
    (hvalid : t.settings.fault? = none) (hne : kernelName ≠ name)
    (hkernelConfig : w.configuration? kernelName = some k)
    (hkernelClass : k.className = t.kernel.record.className)
    (hkernel : Kernel.ofConfiguration k = .ok t.kernel) :
    (lookup directory name).run w =
      (.ok (.trainer w.trainers.length), { w with
        trainers := w.trainers ++ [t]
        instances := Keyed.insert name (.trainer w.trainers.length)
          [(kernelName, .kernel t.kernel)] }) := by
  have hentry : ({ w with making := [name] } : Workshop).catalog.entry? c.className =
      some ⟨.trainer, Recipe.trainer⟩ := by
    have hstandard : Catalog.standard.entry? Trainer.className =
        some ⟨.trainer, Recipe.trainer⟩ := rfl
    rw [hclass, ← hstandard, ← hcatalog]
  obtain ⟨fuel, hfuel⟩ : ∃ fuel, w.configurations.length = fuel + 1 := by
    have hmem : c ∈ w.configurations := List.mem_of_find?_eq_some hconfig
    exact ⟨w.configurations.length - 1, by have := List.length_pos_of_mem hmem; omega⟩
  have hlook := @run_lookupWithin_kernel directory fuel kernelName { w with making := [name] } k
    t.kernel hcatalog (by simpa using hne) (by rw [hinstances]; rfl) hkernelConfig hkernelClass
    hkernel
  have hfollow := @run_follow_trainer _ directory c t kernelName _ _ htrainer hreference hvalid
    hlook
  rw [← hfuel] at hfollow
  have hmake := @run_make _ directory c _ _ _ hentry _ hfollow rfl
  rw [run_lookup hmaking (by rw [hinstances]; rfl) hconfig hmake]
  simp [hmaking, hinstances, Keyed.insert]

/-! ## Overriding -/

/-- Setting a property of a configuration that is registered forgets what was made. -/
theorem run_setProperty {name key : String} {value : Property} {w : Workshop} {c : Configuration}
    (hconfig : w.configuration? name = some c) :
    (setProperty name key value).run w = (.ok (), { w with
      configurations := override name key value w.configurations, instances := [] }) := by
  rw [setProperty, run_get_bind, hconfig]
  rfl

/-- An override keeps the names and the classes. -/
theorem map_override {β : Type} {f : Configuration → β}
    (hf : ∀ c key value, f (c.set key value) = f c) (name key : String) (value : Property)
    (configs : List Configuration) : (override name key value configs).map f = configs.map f := by
  rw [override, List.map_map]
  apply List.map_congr_left
  intro c _
  simp only [Function.comp_apply]
  split
  · exact hf c key value
  · rfl

end Workshop
end Retrace
