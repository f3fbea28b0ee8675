import Retrace.Proofs.FaithfulWorkshop

/-!
# Handles do not matter

A workshop hands out handles for trainers and data sources in the order in which it makes them.  If
it has made others before, all handles are greater, and this is all that changes: recipes of the
standard catalog ask for kernels, which have no handles, so they make the same things, and they fail
in the same way.

Main results:

- Theorem `mirrors_lookup`: looking up with older components around finds the same component.
- Theorem `mirrors_allOfClass`: so it is for all components of a class.
- Theorem `mirrors_train`: a trainer with older ones in front learns the same model.
-/

namespace Retrace

/-! ## Runs that mirror each other -/

section Mirrors

variable {σ β β' γ γ' : Type}

/-- Whether a computation from a lifted state ends as another one does from the state itself: with
the same error, or with what is made of its result, and in its state lifted.  All of this is asked
of states with an invariant, which is kept. -/
structure Mirrors (holds : σ → Prop) (lift : σ → σ) (act : β → β') (s : σ)
    (x : ExceptT Error (StateM σ) β) (y : ExceptT Error (StateM σ) β') : Prop where
  run : y.run (lift s) = ((x.run s).1.map act, lift (x.run s).2)
  holds : holds (x.run s).2

namespace Mirrors

variable {holds : σ → Prop} {lift : σ → σ} {act : β → β'} {act' : γ → γ'} {s : σ}
  {x : ExceptT Error (StateM σ) β} {y : ExceptT Error (StateM σ) β'}

/-- Runs that mirror each other without a change of their results have one outcome. -/
theorem fst_run {y : ExceptT Error (StateM σ) β} (h : Mirrors holds lift id s x y) :
    (y.run (lift s)).1 = (x.run s).1 := by
  rw [h.run]
  cases (x.run s).1 <;> rfl

theorem pure (hs : holds s) {b : β} {b' : β'} (hb : act b = b') :
    Mirrors holds lift act s (Pure.pure b) (Pure.pure b') := by
  constructor
  · rw [run_pure, run_pure, ← hb]
    rfl
  · exact hs

theorem throw (hs : holds s) {e : Error} :
    Mirrors holds lift act s (MonadExcept.throw e) (MonadExcept.throw e) := by
  constructor
  · rw [run_throw, run_throw]
    rfl
  · exact hs

/-- Steps that are mirrored one by one are mirrored one after the other. -/
theorem bind (h : Mirrors holds lift act s x y) {f : β → ExceptT Error (StateM σ) γ}
    {g : β' → ExceptT Error (StateM σ) γ'}
    (hnext : ∀ b t, holds t → Mirrors holds lift act' t (f b) (g (act b))) :
    Mirrors holds lift act' s (x >>= f) (y >>= g) := by
  have hrun := h.run
  have hholds := h.holds
  rcases hx : x.run s with ⟨found, t⟩
  rw [hx] at hrun hholds
  cases found with
  | error e =>
      constructor
      · rw [run_bind_error hrun, run_bind_error hx]
        rfl
      · rw [run_bind_error hx]
        exact hholds
  | ok b =>
      have hmore := hnext b t hholds
      constructor
      · rw [run_bind_ok hrun, run_bind_ok hx]
        exact hmore.run
      · rw [run_bind_ok hx]
        exact hmore.holds

theorem throw_bind (hs : holds s) {e : Error} {f : γ → ExceptT Error (StateM σ) β}
    {g : γ' → ExceptT Error (StateM σ) β'} :
    Mirrors holds lift act s ((MonadExcept.throw e : ExceptT Error (StateM σ) γ) >>= f)
      ((MonadExcept.throw e : ExceptT Error (StateM σ) γ') >>= g) := by
  constructor
  · rw [run_bind_error (run_throw e _), run_bind_error (run_throw e _)]
    rfl
  · rw [run_bind_error (run_throw e _)]
    exact hs

theorem get_bind {f : σ → ExceptT Error (StateM σ) β} {g : σ → ExceptT Error (StateM σ) β'}
    (h : Mirrors holds lift act s (f s) (g (lift s))) :
    Mirrors holds lift act s (get >>= f) (get >>= g) := by
  constructor
  · rw [run_get_bind, run_get_bind]
    exact h.run
  · rw [run_get_bind]
    exact h.holds

/-- A change is mirrored by one that goes with the lift. -/
theorem modify_bind {f g : σ → σ} (hlift : g (lift s) = lift (f s))
    {next : PUnit → ExceptT Error (StateM σ) β} {next' : PUnit → ExceptT Error (StateM σ) β'}
    (h : Mirrors holds lift act (f s) (next ⟨⟩) (next' ⟨⟩)) :
    Mirrors holds lift act s (modify f >>= next) (modify g >>= next') := by
  constructor
  · rw [run_modify_bind, run_modify_bind, hlift]
    exact h.run
  · rw [run_modify_bind]
    exact h.holds

theorem adapt (h : Mirrors holds lift act s x y) (f : Error → Error) :
    Mirrors holds lift act s (x.adapt f) (y.adapt f) := by
  constructor
  · rw [run_adapt, run_adapt, h.run]
    cases (x.run s).1 <;> rfl
  · rw [run_adapt]
    exact h.holds

end Mirrors

end Mirrors

/-! ## Older components -/

/-- A component with its handle shifted. -/
def Component.shift (trainers sources : Nat) : Component → Component
  | .trainer handle => .trainer (trainers + handle)
  | .dataSource handle source => .dataSource (sources + handle) source
  | .kernel k => .kernel k

namespace Workshop

/-- Found components with their handles shifted. -/
def shiftAll (trainers sources : Nat) (found : List (String × Component)) :
    List (String × Component) :=
  found.map fun e => (e.1, e.2.shift trainers sources)

/-- A workshop that has made other trainers and data sources before. -/
def withOlder (older : List Trainer) (n : Nat) (w : Workshop) : Workshop :=
  { w with
    instances := shiftAll older.length n w.instances
    trainers := older ++ w.trainers
    sources := n + w.sources }

/-- Whether a workshop has the standard catalog. -/
def IsStandard (w : Workshop) : Prop :=
  w.catalog = .standard

variable {directory : Directory} {older : List Trainer} {n : Nat} {w : Workshop}

/-- A product that is put behind older ones gets a handle that is shifted by their number. -/
theorem mirrors_keep (hw : w.IsStandard) (product : Product) :
    Mirrors IsStandard (withOlder older n) (Component.shift older.length n) w (keep product)
      (keep product) := by
  cases product with
  | kernel k => exact .pure hw rfl
  | dataSource source => exact ⟨rfl, hw⟩
  | trainer t =>
      constructor
      · have hrun : ∀ v : Workshop, (keep (.trainer t)).run v =
            (.ok (.trainer v.trainers.length), { v with trainers := v.trainers ++ [t] }) :=
          fun _ => rfl
        rw [hrun, hrun]
        simp [withOlder, Except.map, Component.shift]
      · exact hw

/-- A recipe that asks for kernels makes the same behind older trainers. -/
theorem mirrors_follow {look : String → Work Component}
    (hlook : ∀ name v, v.IsStandard →
      Mirrors IsStandard (withOlder older n) (Component.shift older.length n) v (look name)
        (look name))
    {recipe : Recipe} (hrecipe : recipe.AsksForKernels) (hw : w.IsStandard) :
    Mirrors IsStandard (withOlder older n) id w (follow look recipe) (follow look recipe) := by
  induction hrecipe generalizing w with
  | done product => exact .pure hw rfl
  | fail e => exact .throw hw
  | useKernel name next _ ih =>
      apply (hlook name w hw).bind
      intro c v hv
      cases c with
      | trainer handle => exact .throw hv
      | dataSource handle source => exact .throw hv
      | kernel k => exact ih k hv

/-- A component is made behind older trainers with its handle shifted. -/
theorem mirrors_make {look : String → Work Component}
    (hlook : ∀ name v, v.IsStandard →
      Mirrors IsStandard (withOlder older n) (Component.shift older.length n) v (look name)
        (look name))
    (config : Configuration) (hw : w.IsStandard) :
    Mirrors IsStandard (withOlder older n) (Component.shift older.length n) w
      (make look directory config) (make look directory config) := by
  rw [make]
  apply Mirrors.get_bind
  have hcatalog : (withOlder older n w).catalog.entry? config.className =
      w.catalog.entry? config.className := rfl
  rw [hcatalog]
  cases hentry : w.catalog.entry? config.className with
  | none => exact .throw hw
  | some entry =>
      rw [show w.catalog = .standard from hw] at hentry
      have hrecipe := (Catalog.plain_of_entry?_standard hentry).asksForKernels directory config
      apply ((mirrors_follow hlook hrecipe hw).adapt (Error.within config.name)).bind
      intro product v hv
      by_cases hkind : product.kind = entry.kind
      · simp only [id, hkind, if_true]
        exact mirrors_keep hv product
      · simp only [id, hkind, if_false]
        exact .throw hv

/-- Names that are being made do not touch the older trainers. -/
theorem mirrors_whileMaking {name : String} {work : Work Component}
    (h : Mirrors IsStandard (withOlder older n) (Component.shift older.length n)
      { w with making := w.making ++ [name] } work work) :
    Mirrors IsStandard (withOlder older n) (Component.shift older.length n) w
      (whileMaking name work) (whileMaking name work) := by
  have hrun := h.run
  have hholds := h.holds
  rcases hwork : work.run { w with making := w.making ++ [name] } with ⟨found, v⟩
  rw [hwork] at hrun hholds
  have hlift : withOlder older n { w with making := w.making ++ [name] } =
      { withOlder older n w with making := (withOlder older n w).making ++ [name] } := rfl
  rw [hlift] at hrun
  cases found with
  | ok c =>
      constructor
      · rw [run_whileMaking_ok hrun, run_whileMaking_ok hwork]
        rfl
      · rw [run_whileMaking_ok hwork]
        exact hholds
  | error e =>
      constructor
      · rw [run_whileMaking_error hrun, run_whileMaking_error hwork]
        cases e.isBreach <;> rfl
      · rw [run_whileMaking_error hwork]
        cases e.isBreach <;> exact hholds

/-! ## Looking up -/

/-- What is found among shifted components is found shifted. -/
theorem lookup_shiftAll (name : String) (trainers sources : Nat)
    (found : List (String × Component)) :
    Keyed.lookup name (shiftAll trainers sources found) =
      (Keyed.lookup name found).map (Component.shift trainers sources) :=
  Keyed.lookup_map (fun (_ : String) (c : Component) => c.shift trainers sources) name found

/-- A component that was made is put among the others with its handle shifted. -/
theorem withOlder_insert (name : String) (c : Component) (w : Workshop) :
    withOlder older n { w with instances := Keyed.insert name c w.instances } =
      { withOlder older n w with
        instances :=
          Keyed.insert name (c.shift older.length n) (withOlder older n w).instances } := by
  have hinsert := Keyed.insert_map (Component.shift older.length n) name c w.instances
  unfold withOlder shiftAll
  rw [hinsert]

/-- A component that was made is found, and one that cannot be made is refused, as it is with older
components around. -/
theorem mirrors_unlessMade {name : String} (hw : w.IsStandard)
    {makeOne makeOther : Configuration → Work Component}
    (hmake : ∀ config, Mirrors IsStandard (withOlder older n) (Component.shift older.length n) w
      (makeOne config) (makeOther config)) :
    Mirrors IsStandard (withOlder older n) (Component.shift older.length n) w
      (match Keyed.lookup name w.instances with
      | some c => pure c
      | none =>
          match w.configuration? name with
          | none => throw (.component name .notRegistered)
          | some config =>
              if w.making.contains name then
                throw (.component name (.cycle (w.making ++ [name])))
              else makeOne config)
      (match Keyed.lookup name (withOlder older n w).instances with
      | some c => pure c
      | none =>
          match (withOlder older n w).configuration? name with
          | none => throw (.component name .notRegistered)
          | some config =>
              if (withOlder older n w).making.contains name then
                throw (.component name (.cycle ((withOlder older n w).making ++ [name])))
              else makeOther config) := by
  have hinstances : Keyed.lookup name (withOlder older n w).instances =
      (Keyed.lookup name w.instances).map (Component.shift older.length n) :=
    lookup_shiftAll ..
  have hconfig : (withOlder older n w).configuration? name = w.configuration? name := rfl
  have hmaking : (withOlder older n w).making = w.making := rfl
  rw [hinstances, hconfig, hmaking]
  cases Keyed.lookup name w.instances with
  | some c => exact .pure hw rfl
  | none =>
      cases w.configuration? name with
      | none => exact .throw hw
      | some config =>
          simp only [Option.map_none]
          split
          · exact .throw hw
          · exact hmake config

/-- Looking up behind older trainers finds the component shifted. -/
theorem mirrors_lookupWithin (fuel : Nat) (name : String) (hw : w.IsStandard) :
    Mirrors IsStandard (withOlder older n) (Component.shift older.length n) w
      (lookupWithin directory fuel name) (lookupWithin directory fuel name) := by
  induction fuel generalizing name w with
  | zero =>
      rw [lookupWithin]
      apply Mirrors.get_bind
      apply mirrors_unlessMade hw
      intro config
      exact .throw hw
  | succ fuel ih =>
      rw [lookupWithin]
      apply Mirrors.get_bind
      apply mirrors_unlessMade hw
      intro config
      apply (mirrors_whileMaking (mirrors_make (fun other v hv => ih other hv) config hw)).bind
      intro c v hv
      apply Mirrors.modify_bind (withOlder_insert name c v).symm
      apply Mirrors.pure
      · exact hv
      · rfl

/-- Looking up with older components around finds the same component. -/
theorem mirrors_lookup (name : String) (hw : w.IsStandard) :
    Mirrors IsStandard (withOlder older n) (Component.shift older.length n) w
      (lookup directory name) (lookup directory name) := by
  rw [lookup]
  apply Mirrors.get_bind
  have hdepth : (withOlder older n w).depth = w.depth := rfl
  rw [hdepth]
  exact mirrors_lookupWithin _ name hw

theorem mirrors_lookupAll (names : List String) (hw : w.IsStandard) :
    Mirrors IsStandard (withOlder older n) (shiftAll older.length n) w (lookupAll directory names)
      (lookupAll directory names) := by
  induction names generalizing w with
  | nil => exact .pure hw rfl
  | cons name rest ih =>
      apply (mirrors_lookup name hw).bind
      intro c v hv
      apply (ih hv).bind
      intro more u hu
      exact .pure hu rfl

/-- All components of a class are found with older components around. -/
theorem mirrors_allOfClass (className : String) (hw : w.IsStandard) :
    Mirrors IsStandard (withOlder older n) (shiftAll older.length n) w
      (allOfClass directory className) (allOfClass directory className) := by
  rw [allOfClass]
  apply Mirrors.get_bind
  exact mirrors_lookupAll _ hw

/-! ## Training -/

/-- A trainer with older ones in front learns the same model. -/
theorem mirrors_train (occasion : Occasion) (handle : Nat) (d : Dataset) (hw : w.IsStandard) :
    Mirrors IsStandard (withOlder older n) id w (train occasion handle d)
      (train occasion (older.length + handle) d) := by
  rw [train, train]
  apply Mirrors.get_bind
  have hfound : (withOlder older n w).trainer? (older.length + handle) = w.trainer? handle := by
    unfold trainer? withOlder
    rw [List.getElem?_append_right (Nat.le_add_right ..), Nat.add_sub_cancel_left]
  rw [hfound]
  cases w.trainer? handle with
  | none => exact .throw hw
  | some t =>
      simp only
      rcases t.train occasion d with ⟨result, t⟩
      apply Mirrors.modify_bind
      · unfold withOlder
        simp
      · cases result with
        | ok m =>
            apply Mirrors.pure
            · exact hw
            · rfl
        | error e =>
            apply Mirrors.throw
            exact hw

end Workshop
end Retrace
