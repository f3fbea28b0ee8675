import Retrace.Proofs.Blueprint
import Retrace.Proofs.CraftedWorkshop

/-!
# How a lookup ends

The configurations of a workshop may refer to each other in any way, and to names that do not exist.
A lookup makes what it can.  Whether it ends well or with an error, the workshop keeps what it had,
and everything that it has won was made to the end.  Unless a contract was broken, the names that
were being made before are those that are being made afterwards.

An error is about the component that was asked for or about one that it refers to, directly or
through others.  This needs recipes that are orderly: they ask for names that their configuration
refers to, they pass on the errors that they meet, and what they find wrong themselves is about
their own configuration.  The recipes of the standard catalog are orderly.

Main results:

- Theorem `Catalog.orderly_standard`: the standard catalog is orderly.
- Theorem `Workshop.concludes_lookupWithin`: how a lookup ends.
-/

namespace Retrace

/-! ## Orderly recipes -/

namespace Recipe

/-- Whether a recipe for a component with its `own` name asks only for names that it may ask for,
and fails only with errors about no component or about itself, or because what it asked for is of
another kind. -/
inductive Orderly (own : String) (mayAsk : String → Prop) : Recipe → Prop
  | done (product : Product) : Orderly own mayAsk (.done product)
  | fail {e : Error} (h : ∀ name, e.component? = some name → name = own) :
      Orderly own mayAsk (.fail e)
  | wrongKind {name : String} (h : mayAsk name) (expected found : ComponentKind) :
      Orderly own mayAsk (.fail (.component name (.wrongKind expected found)))
  | use {name : String} {next : Component → Recipe} (h : mayAsk name)
      (hnext : ∀ c, Orderly own mayAsk (next c)) : Orderly own mayAsk (.use name next)

/-- Whether a recipe may fail with an error of its own. -/
inductive MayFail (e : Error) : Recipe → Prop
  | fail : MayFail e (.fail e)
  | use {name : String} {next : Component → Recipe} (c : Component) (h : MayFail e (next c)) :
      MayFail e (.use name next)

variable {own : String} {mayAsk : String → Prop}

/-- A recipe that may ask for a kernel and goes on orderly is orderly. -/
theorem orderly_useKernel {name : String} {next : Kernel → Recipe} (h : mayAsk name)
    (hnext : ∀ k, (next k).Orderly own mayAsk) : (useKernel name next).Orderly own mayAsk := by
  refine .use h fun c => ?_
  cases c with
  | trainer handle => exact .wrongKind h _ _
  | dataSource handle source => exact .wrongKind h _ _
  | kernel k => exact hnext k

/-- A recipe that fails with errors about itself is orderly. -/
theorem orderly_ofResult {result : Result Product}
    (h : ∀ e, result = .error e → ∀ name, e.component? = some name → name = own) :
    (ofResult result).Orderly own mayAsk := by
  cases result with
  | ok product => exact .done product
  | error e => exact .fail (h e rfl)

end Recipe

/-- Whether the recipes of a catalog are orderly, given what a configuration refers to. -/
def Catalog.Orderly (refers : Configuration → String → Prop) (catalog : Catalog) : Prop :=
  ∀ className entry, catalog.entry? className = some entry →
    ∀ directory c, (entry.recipe directory c).Orderly c.name (refers c)

/-- Whether a configuration has a property that refers to a name. -/
def Configuration.RefersTo (c : Configuration) (name : String) : Prop :=
  ∃ e ∈ c.properties, name ∈ e.2.references

/-! ## The standard catalog -/

/-- Whether a result, if it is an error, is about no component or about one with a name. -/
structure Result.AtMostAbout {β : Type} (name : String) (result : Result β) : Prop where
  eq_of_error : ∀ e, result = .error e → ∀ other, e.component? = some other → other = name

namespace Result.AtMostAbout

variable {β γ : Type} {name : String}

/-- A result that is no error is about nothing. -/
theorem ok (b : β) : AtMostAbout name (.ok b) :=
  ⟨by simp⟩

theorem error {e : Error} (h : ∀ other, e.component? = some other → other = name) :
    AtMostAbout (β := β) name (.error e) := by
  refine ⟨fun f hf => ?_⟩
  rw [← Except.error.inj hf]
  exact h

/-- A fault of a component is about that component. -/
theorem own (fault : ComponentFault) :
    AtMostAbout (β := β) name (.error (.component name fault)) :=
  .error fun _ hother => (Option.some.inj hother).symm

/-- An error about no component may be met under any name. -/
theorem ofNone {e : Error} (h : e.component? = none) : AtMostAbout (β := β) name (.error e) :=
  .error fun other hother => by simp [h] at hother

/-- Results one after the other are about a name at most if each of them is. -/
theorem bind {result : Result β} {next : β → Result γ} (h : AtMostAbout name result)
    (hnext : ∀ b, AtMostAbout name (next b)) : AtMostAbout name (result >>= next) := by
  cases result with
  | error e => exact .error (h.eq_of_error e rfl)
  | ok b => exact hnext b

/-- What is made of a result is about no more. -/
theorem map {result : Result β} (h : AtMostAbout name result) (f : β → γ) :
    AtMostAbout name (result.map f) := by
  cases result with
  | error e => exact .error (h.eq_of_error e rfl)
  | ok b => exact .ok (f b)

/-- A fault that is turned into an error about no component. -/
theorem mapError {ε : Type} {result : Except ε β} {f : ε → Error}
    (h : ∀ fault, (f fault).component? = none) : AtMostAbout name (result.mapError f) := by
  cases result with
  | error fault => exact .ofNone (h fault)
  | ok b => exact .ok b

/-- A property that cannot be read is a fault of its configuration. -/
theorem checked (c : Configuration) (key : String)
    (reader : Configuration → String → Except PropertyFault β) :
    AtMostAbout c.name (c.checked key reader) := by
  rw [Configuration.checked]
  cases reader c key with
  | error fault => exact .own _
  | ok b => exact .ok b

theorem needed (c : Configuration) (key : String)
    (reader : Configuration → String → Except PropertyFault (Option β)) :
    AtMostAbout c.name (c.needed key reader) := by
  have hchecked := checked c key reader
  rw [Configuration.needed]
  split
  · rename_i e he
    exact .error (hchecked.eq_of_error e he)
  · exact .ok _
  · exact .own _

/-- A kernel that cannot be made is a fault of its configuration. -/
theorem kernel (c : Configuration) : AtMostAbout c.name (Kernel.ofConfiguration c) := by
  rw [Kernel.ofConfiguration]
  split
  · exact .ok _
  · split
    · exact (needed ..).bind fun _ => .mapError fun _ => rfl
    · split
      · exact (needed ..).bind fun _ => (needed ..).bind fun _ => (needed ..).bind fun _ =>
          .mapError fun _ => rfl
      · exact .own _

theorem trainer (c : Configuration) : AtMostAbout c.name (Trainer.ofConfiguration c) :=
  (checked ..).bind fun _ => (checked ..).bind fun _ => (checked ..).bind fun _ =>
    (checked ..).bind fun _ => (checked ..).bind fun _ => (checked ..).bind fun _ =>
    (checked ..).bind fun _ => .ok _

/-- A file that cannot be read is about no component. -/
theorem file (format : DataFormat) (directory : Directory) (path : OsPath) :
    AtMostAbout name (DataSource.ofFile format directory path) := by
  rw [DataSource.ofFile]
  split
  · exact .ofNone rfl
  · split
    · rename_i fault _
      exact .ofNone (by cases fault <;> rfl)
    · exact .ok _

end Result.AtMostAbout

/-- A configuration refers to what it has a reference to. -/
theorem Configuration.refersTo_of_checked {c : Configuration} {key name : String}
    (h : c.checked key reference? = .ok (some name)) : c.RefersTo name := by
  rw [checked, reference?] at h
  split at h
  · simp [Except.mapError] at h
  · rename_i other hproperty
    simp only [Except.mapError, Except.ok.injEq, Option.some.injEq] at h
    subst h
    exact ⟨_, Keyed.mem_of_lookup hproperty, by simp [Property.references]⟩
  · simp [Except.mapError] at h

/-- A trainer with its own kernel asks for nothing. -/
theorem Recipe.orderly_ofTrainer (name : String) (mayAsk : String → Prop) (t : Trainer) :
    (ofTrainer name t).Orderly name mayAsk := by
  rw [ofTrainer]
  split
  · exact .fail fun other hother => (Option.some.inj hother).symm
  · exact .done _

/-- The recipe of a trainer asks for the kernel that its configuration names. -/
theorem Recipe.orderly_trainer (directory : Directory) (c : Configuration) :
    (trainer directory c).Orderly c.name c.RefersTo := by
  have htrainer := Result.AtMostAbout.trainer c
  have hkernel := Result.AtMostAbout.checked c "kernel" Configuration.reference?
  rw [trainer]
  split
  · rename_i e he
    exact .fail (htrainer.eq_of_error e he)
  · split
    · rename_i e he
      exact .fail (hkernel.eq_of_error e he)
    · exact orderly_ofTrainer _ _ _
    · rename_i name hname
      exact orderly_useKernel (Configuration.refersTo_of_checked hname) fun k =>
        orderly_ofTrainer _ _ _

/-- The standard catalog is orderly. -/
theorem Catalog.orderly_standard : Catalog.standard.Orderly Configuration.RefersTo := by
  intro className entry hentry directory c
  rcases eq_of_entry?_standard hentry with ⟨-, rfl⟩ | ⟨-, rfl⟩ | ⟨format, -, rfl⟩
  · exact Recipe.orderly_trainer directory c
  · exact Recipe.orderly_ofResult ((Result.AtMostAbout.kernel c).map _).eq_of_error
  · have hfile : Result.AtMostAbout c.name (do
        let path ← c.checked "path" Configuration.text
        let source ← DataSource.ofFile format directory (.ofText path)
        return Product.dataSource source) :=
      (Result.AtMostAbout.checked ..).bind fun path =>
        (Result.AtMostAbout.file ..).bind fun _ => .ok _
    exact Recipe.orderly_ofResult hfile.eq_of_error

namespace Error

/-- An error about a component stays what it is within another one. -/
theorem within_of_component? {e : Error} {other : String} (h : e.component? = some other)
    (name : String) : e.within name = e := by
  cases e <;> first | rfl | simp [component?] at h

/-- A broken contract is about no component. -/
theorem component?_of_isBreach {e : Error} (h : e.isBreach = true) : e.component? = none := by
  cases e <;> first | rfl | simp [isBreach] at h

/-- A broken contract is not put down to a component. -/
theorem within_of_isBreach {e : Error} (h : e.isBreach = true) (name : String) :
    e.within name = e := by
  cases e <;> first | rfl | simp [isBreach] at h

/-- Within a component an error about no other one becomes an error about it, unless a contract was
broken. -/
theorem component?_within_of_own {e : Error} {name : String}
    (h : ∀ other, e.component? = some other → other = name) (hbreach : e.isBreach = false) :
    (e.within name).component? = some name := by
  cases e <;> simp_all [within, component?, isBreach]

end Error

namespace Workshop

variable {β γ : Type} {directory : Directory} {refers : Configuration → String → Prop}
  {u w v : Workshop}

/-! ## References -/

/-- Whether the configuration under a name refers to another name. -/
def Refers (refers : Configuration → String → Prop) (w : Workshop) (name other : String) : Prop :=
  ∃ config, w.configuration? name = some config ∧ refers config other

/-- Whether a name leads to another one by references. -/
def Reaches (refers : Configuration → String → Prop) (w : Workshop) : String → String → Prop :=
  Relation.ReflTransGen (w.Refers refers)

/-- What accounts for an error of looking up a name: it is about a component that the name leads to,
or the recipe of such a component broke a contract. -/
inductive Accounts (directory : Directory) (refers : Configuration → String → Prop) (w : Workshop)
    (name : String) (e : Error) : Prop
  | component (other : String) (about : e.component? = some other)
      (reached : w.Reaches refers name other)
  | breach (other : String) (config : Configuration) (entry : CatalogEntry)
      (reached : w.Reaches refers name other) (configured : w.configuration? other = some config)
      (registered : w.catalog.entry? config.className = some entry)
      (broken : (entry.recipe directory config).MayFail e) (isBreach : e.isBreach = true)

/-- A workshop that has grown has the same configurations. -/
theorem GrowsTo.configuration? (h : w.GrowsTo v) (name : String) :
    v.configuration? name = w.configuration? name := by
  rw [Workshop.configuration?, h.configurations]
  rfl

/-- References lead where they led before. -/
theorem GrowsTo.reaches (h : w.GrowsTo v) : v.Reaches refers = w.Reaches refers := by
  have hrefers : v.Refers refers = w.Refers refers := by
    funext name other
    simp only [Refers, h.configuration?]
  rw [Reaches, Reaches, hrefers]

/-- What accounts for an error after the workshop has grown accounted for it before. -/
theorem GrowsTo.accounts (h : w.GrowsTo v) {name : String} {e : Error}
    (he : Accounts directory refers v name e) : Accounts directory refers w name e := by
  cases he with
  | component other about reached => exact .component other about (h.reaches ▸ reached)
  | breach other config entry reached configured registered broken isBreach =>
      refine .breach other config entry (h.reaches ▸ reached) ?_ ?_ broken isBreach
      · rwa [h.configuration?] at configured
      · rwa [h.catalog] at registered

/-- What accounts for an error behind a reference accounts for it. -/
theorem Accounts.of_refers {name other : String} {e : Error} (hrefers : w.Refers refers name other)
    (h : Accounts directory refers w other e) : Accounts directory refers w name e := by
  cases h with
  | component last about reached => exact .component last about (.head hrefers reached)
  | breach last config entry reached configured registered broken isBreach =>
      exact .breach last config entry (.head hrefers reached) configured registered broken isBreach

/-- A name accounts for the faults of its own component. -/
theorem Accounts.self {name : String} (fault : ComponentFault) :
    Accounts directory refers w name (.component name fault) :=
  .component name rfl .refl

/-! ## Advancing -/

/-- Whether a workshop has come from another one by making components: it has all that was there,
nothing new under the names that were being made, and what is new was made to the end. -/
structure Advances (directory : Directory) (w v : Workshop) : Prop where
  grows : w.GrowsTo v
  spared : ∀ name ∈ w.making, v.made? name = w.made? name
  complete : ∀ name c, v.made? name = some c →
    w.made? name = some c ∨ CraftedAs directory v name c

theorem Advances.refl (w : Workshop) : Advances directory w w :=
  ⟨.refl w, fun _ _ => rfl, fun _ _ => .inl⟩

theorem Advances.trans (huw : Advances directory u w) (hmaking : w.making = u.making)
    (hwv : Advances directory w v) : Advances directory u v := by
  refine ⟨huw.grows.trans hwv.grows, ?_, ?_⟩
  · intro name hname
    rw [hwv.spared name (hmaking ▸ hname), huw.spared name hname]
  · intro name c hc
    rcases hwv.complete name c hc with hold | hnew
    · exact (huw.complete name c hold).imp id hwv.grows.craftedAs
    · exact .inr hnew

/-- A workshop advances if it grows by no component. -/
theorem Advances.of_growsTo (h : w.GrowsTo v) (hinstances : v.instances = w.instances) :
    Advances directory w v := by
  have hmade : ∀ name, v.made? name = w.made? name := fun name => by
    rw [made?, hinstances]
    rfl
  exact ⟨h, fun name _ => hmade name, fun name c hc => .inl (hmade name ▸ hc)⟩

/-! ## Work that concludes -/

/-- How some work ends: well, with what it is said to yield, or with an error as it is said to fail.
The workshop advances in either case, and unless a contract is broken the names that were being made
before are being made again. -/
inductive Concludes (directory : Directory) (w : Workshop) (work : Work β) (fails : Error → Prop)
    (post : β → Workshop → Prop) : Prop
  | ok (b : β) (v : Workshop) (run : work.run w = (.ok b, v)) (advances : Advances directory w v)
      (making : v.making = w.making) (yields : post b v)
  | error (e : Error) (v : Workshop) (run : work.run w = (.error e, v))
      (advances : Advances directory w v) (making : e.isBreach = false → v.making = w.making)
      (explained : fails e)

namespace Concludes

variable {work : Work β} {fails : Error → Prop} {post : β → Workshop → Prop}

theorem pure {b : β} (hb : post b w) : Concludes directory w (Pure.pure b) fails post :=
  .ok b w (run_pure b w) (.refl w) rfl hb

theorem throw {e : Error} (he : fails e) :
    Concludes directory w (MonadExcept.throw e) fails post :=
  .error e w (run_throw e w) (.refl w) (fun _ => rfl) he

theorem mono {more : Error → Prop} {weaker : β → Workshop → Prop}
    (h : Concludes directory w work fails post) (hfails : ∀ e, fails e → more e)
    (hpost : ∀ b v, w.GrowsTo v → post b v → weaker b v) :
    Concludes directory w work more weaker := by
  cases h with
  | ok b v run advances making yields =>
      exact .ok b v run advances making (hpost b v advances.grows yields)
  | error e v run advances making explained =>
      exact .error e v run advances making (hfails e explained)

theorem get_bind {next : Workshop → Work β} (h : Concludes directory w (next w) fails post) :
    Concludes directory w (get >>= next) fails post := by
  have hrun := run_get_bind next w
  cases h with
  | ok b v run advances making yields => exact .ok b v (hrun.trans run) advances making yields
  | error e v run advances making explained =>
      exact .error e v (hrun.trans run) advances making explained

/-- Work that goes on from what was yielded ends as its last part does. -/
theorem bind {next : β → Work γ} {last : γ → Workshop → Prop}
    (h : Concludes directory w work fails post)
    (hnext : ∀ b v, w.GrowsTo v → v.making = w.making → post b v →
      Concludes directory v (next b) fails last) :
    Concludes directory w (work >>= next) fails last := by
  cases h with
  | error e v run advances making explained =>
      exact .error e v (run_bind_error run) advances making explained
  | ok b v run advances making yields =>
      cases hnext b v advances.grows making yields with
      | ok c u runNext advancesNext makingNext yieldsNext =>
          exact .ok c u ((run_bind_ok run).trans runNext) (advances.trans making advancesNext)
            (makingNext.trans making) yieldsNext
      | error e u runNext advancesNext makingNext explained =>
          exact .error e u ((run_bind_ok run).trans runNext) (advances.trans making advancesNext)
            (fun he => (makingNext he).trans making) explained

/-- Calling an error one of a component breaks no contract and mends none. -/
theorem adapt {more : Error → Prop} (h : Concludes directory w work fails post) (name : String)
    (hfails : ∀ e, fails e → more (e.within name)) :
    Concludes directory w (work.adapt (Error.within name)) more post := by
  have hrun := run_adapt (Error.within name) work w
  cases h with
  | ok b v run advances making yields =>
      rw [run] at hrun
      exact .ok b v hrun advances making yields
  | error e v run advances making explained =>
      rw [run] at hrun
      exact .error _ v hrun advances (fun he => making (Error.isBreach_within name e ▸ he))
        (hfails e explained)

end Concludes

/-! ## Making -/

/-- Keeping a product advances the workshop. -/
theorem concludes_keep (w : Workshop) (product : Product) (fails : Error → Prop) :
    Concludes directory w (keep product) fails fun c v => v.product? c = some product := by
  cases product with
  | kernel k => exact .pure rfl
  | dataSource source => exact .ok _ _ rfl (.of_growsTo ⟨rfl, rfl, id, id⟩ rfl) rfl rfl
  | trainer t =>
      have hgrows : w.GrowsTo { w with trainers := w.trainers ++ [t] } := by
        refine ⟨rfl, rfl, id, fun {handle other} h => ?_⟩
        rw [trainer?] at h ⊢
        rw [List.getElem?_append_left (List.getElem?_eq_some_iff.1 h).1, h]
      exact .ok _ _ rfl (.of_growsTo hgrows rfl) rfl (by simp [product?, trainer?])

/-- How a recipe is followed: it may fail with its own errors, and with those of looking up what
its configuration refers to. -/
theorem concludes_follow {look : String → Work Component} {name : String} {config : Configuration}
    {entry : CatalogEntry} (hconfig : w.configuration? name = some config)
    (hlook : ∀ other v, w.GrowsTo v → Concludes directory v (look other)
      (Accounts directory refers v other) fun c u => u.made? other = some c)
    {recipe : Recipe} (horderly : recipe.Orderly config.name (refers config))
    (hbroken : ∀ e, recipe.MayFail e → (entry.recipe directory config).MayFail e)
    (hv : w.GrowsTo v) :
    Concludes directory v (follow look recipe)
      (fun e => Accounts directory refers w name e ∨
        (∀ other, e.component? = some other → other = config.name) ∧
          (entry.recipe directory config).MayFail e)
      fun product u => recipe.product u.made? = some product := by
  induction horderly generalizing v with
  | done product => exact .pure rfl
  | fail h => exact .throw (.inr ⟨h, hbroken _ .fail⟩)
  | wrongKind h expected found =>
      exact .throw (.inl (.component _ rfl (.single ⟨config, hconfig, h⟩)))
  | @use other next h _ ih =>
      have hfirst : Concludes directory v (look other)
          (fun e => Accounts directory refers w name e ∨
            (∀ other, e.component? = some other → other = config.name) ∧
              (entry.recipe directory config).MayFail e)
          fun c u => u.made? other = some c :=
        (hlook other v hv).mono
          (fun e he => .inl ((hv.accounts he).of_refers ⟨config, hconfig, h⟩))
          fun _ _ _ hmade => hmade
      apply hfirst.bind
      intro c u hgrows _ hmade
      apply (ih c (fun e he => hbroken e (.use c he)) (hv.trans hgrows)).mono (fun e he => he)
      intro product t hmore hproduct
      have hstill : t.made? other = some c := hmore.instances hmade
      rw [Recipe.product, hstill]
      exact hproduct

/-- A configuration is found under its name. -/
theorem name_of_configuration? {name : String} {config : Configuration}
    (h : w.configuration? name = some config) : config.name = name := by
  simpa using List.find?_some h

/-- An error of following a recipe, within the component that is made by it. -/
theorem Accounts.within {name : String} {config : Configuration} {entry : CatalogEntry}
    (hconfig : w.configuration? name = some config)
    (hentry : w.catalog.entry? config.className = some entry) {e : Error}
    (h : Accounts directory refers w name e ∨
      (∀ other, e.component? = some other → other = config.name) ∧
        (entry.recipe directory config).MayFail e) :
    Accounts directory refers w name (e.within config.name) := by
  have hname := name_of_configuration? hconfig
  rcases h with haccounts | ⟨hown, hfails⟩
  · cases haccounts with
    | component other about reached =>
        rw [Error.within_of_component? about]
        exact .component other about reached
    | breach other found made reached configured registered broken isBreach =>
        rw [Error.within_of_isBreach isBreach]
        exact .breach other found made reached configured registered broken isBreach
  · cases hbreach : e.isBreach with
    | true =>
        rw [Error.within_of_isBreach hbreach]
        exact .breach name config entry .refl hconfig hentry hfails hbreach
    | false =>
        have habout := Error.component?_within_of_own hown hbreach
        exact .component name (by rw [habout, hname]) .refl

/-- How a component is made from the configuration of a name. -/
theorem concludes_make {look : String → Work Component} {name : String} {config : Configuration}
    (hcatalog : w.catalog.Orderly refers) (hconfig : w.configuration? name = some config)
    (hlook : ∀ other v, w.GrowsTo v → Concludes directory v (look other)
      (Accounts directory refers v other) fun c u => u.made? other = some c) :
    Concludes directory w (make look directory config) (Accounts directory refers w name)
      fun c v => CraftedAs directory v name c := by
  have hname := name_of_configuration? hconfig
  rw [make]
  apply Concludes.get_bind
  split
  · exact .throw (hname ▸ .self _)
  · rename_i entry hentry
    have horderly := hcatalog _ entry hentry directory config
    have hfollow := concludes_follow hconfig hlook horderly (fun _ he => he) (.refl w)
    apply (hfollow.adapt config.name fun e he => Accounts.within hconfig hentry he).bind
    intro product v hgrows _ hproduct
    split
    · rename_i hkind
      apply (concludes_keep v product _).mono (fun e he => he)
      intro c u hmore hcomponent
      have hall := hgrows.trans hmore
      refine ⟨config, entry, product, ?_, ?_, ?_, hkind, hcomponent⟩
      · rw [hall.configuration?, hconfig]
      · rw [hall.catalog, hentry]
      · exact Recipe.product_mono (fun _ _ hmade => hmore.instances hmade) hproduct
    · exact .throw (hname ▸ .self _)

/-- What has advanced while a name was being made has advanced, whatever is being made then. -/
theorem Advances.of_busy {name : String}
    (h : Advances directory { w with making := w.making ++ [name] } v) (making : List String) :
    Advances directory w { v with making := making } := by
  have hsame : v.GrowsTo { v with making := making } := ⟨rfl, rfl, id, id⟩
  refine ⟨⟨h.grows.catalog, h.grows.configurations, h.grows.instances, h.grows.trainers⟩, ?_, ?_⟩
  · intro other hother
    exact h.spared other (List.mem_append_left _ hother)
  · intro other c hc
    exact (h.complete other c hc).imp id hsame.craftedAs

/-- How work ends that is done while a name is being made. -/
theorem Concludes.whileMaking {name : String} {work : Work Component} {fails : Error → Prop}
    (h : Concludes directory { w with making := w.making ++ [name] } work fails fun c v =>
      CraftedAs directory v name c) :
    Concludes directory w (whileMaking name work) fails fun c v =>
      CraftedAs directory v name c ∧ v.made? name = w.made? name := by
  cases h with
  | ok c v run advances making yields =>
      have hleft : v.GrowsTo { v with making := v.making.dropLast } := ⟨rfl, rfl, id, id⟩
      refine .ok c _ (run_whileMaking_ok run) (advances.of_busy _) (by simp [making])
        ⟨hleft.craftedAs yields, ?_⟩
      exact advances.spared name (List.mem_append_right _ List.mem_cons_self)
  | error e v run advances making explained =>
      have hrun := run_whileMaking_error run
      cases hbreach : e.isBreach with
      | true =>
          rw [hbreach, if_pos rfl] at hrun
          exact .error e v hrun (advances.of_busy v.making) (by simp [hbreach]) explained
      | false =>
          rw [hbreach, if_neg Bool.false_ne_true] at hrun
          exact .error e _ hrun (advances.of_busy _) (fun _ => by simp [making hbreach]) explained

/-- How a component is kept that was made under a free name. -/
theorem concludes_insert {work : Work Component} {name : String} {fails : Error → Prop}
    (hnone : w.made? name = none) (hmaking : name ∉ w.making)
    (h : Concludes directory w work fails fun c v =>
      CraftedAs directory v name c ∧ v.made? name = w.made? name) :
    Concludes directory w (do
        let c ← work
        modify fun w => { w with instances := Keyed.insert name c w.instances }
        return c)
      fails fun c v => v.made? name = some c := by
  cases h with
  | error e v run advances making explained =>
      exact .error e v (run_bind_error run) advances making explained
  | ok c v run advances making yields =>
      have hfree : v.made? name = none := yields.2.trans hnone
      have hgrows := growsTo_insert hfree c
      have hother : ∀ other, other ≠ name →
          Keyed.lookup other (Keyed.insert name c v.instances) = v.made? other :=
        fun other hne => Keyed.lookup_insert_of_ne hne c v.instances
      have hmore : Advances directory v
          { v with instances := Keyed.insert name c v.instances } := by
        refine ⟨hgrows, ?_, ?_⟩
        · intro other hmem
          have hne : other ≠ name := fun heq => hmaking (making ▸ heq ▸ hmem)
          exact hother other hne
        · intro other found hfound
          by_cases heq : other = name
          · rw [heq] at hfound ⊢
            rw [made?, Keyed.lookup_insert_self, Option.some.injEq] at hfound
            rw [← hfound]
            exact .inr (hgrows.craftedAs yields.1)
          · rw [made?, hother other heq] at hfound
            exact .inl hfound
      refine .ok c _ ?_ (advances.trans making hmore) making (Keyed.lookup_insert_self _ _ _)
      rw [run_bind_ok run, run_modify_bind, run_pure]

/-- How a lookup ends. -/
theorem concludes_lookupWithin (fuel : Nat) (name : String) (hcatalog : w.catalog.Orderly refers) :
    Concludes directory w (lookupWithin directory fuel name) (Accounts directory refers w name)
      fun c v => v.made? name = some c := by
  induction fuel generalizing name w with
  | zero =>
      rw [lookupWithin]
      apply Concludes.get_bind
      split
      · rename_i c hc
        exact .pure hc
      · split
        · exact .throw (.self _)
        · split <;> exact .throw (.self _)
  | succ fuel ih =>
      rw [lookupWithin]
      apply Concludes.get_bind
      split
      · rename_i c hc
        exact .pure hc
      · rename_i hnone
        split
        · exact .throw (.self _)
        · rename_i config hconfig
          split
          · exact .throw (.self _)
          · rename_i hmaking
            have hbusy : w.GrowsTo { w with making := w.making ++ [name] } := ⟨rfl, rfl, id, id⟩
            have hmake := @concludes_make directory refers { w with making := w.making ++ [name] }
              (lookupWithin directory fuel) name config hcatalog hconfig fun other v hgrows =>
                ih other (hgrows.catalog ▸ hcatalog)
            apply concludes_insert hnone (by simpa using hmaking)
            apply Concludes.whileMaking
            exact hmake.mono (fun e he => hbusy.accounts he) fun _ _ _ hc => hc

end Workshop
end Retrace
