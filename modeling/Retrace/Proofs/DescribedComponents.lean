import Retrace.Proofs.Plans
import Retrace.Proofs.Workshop

/-!
# What configurations describe

Configurations describe components whether or not these were made.  The recipes of the standard
catalog ask for kernels alone, and the recipe of a kernel asks for nothing: what a configuration
describes depends on it and on the kernels that the other configurations describe.

Main results:

- Theorem `described_eq_kernel_iff`: the kernels that recipes ask for are what is described under
  their names.
- Theorem `described_append`: further configurations leave what is described.
-/

namespace Retrace

/-- A product without the number of its uses. -/
def Product.unused : Product → Product
  | .trainer t => .trainer { t with count := 0 }
  | product => product

/-! ## Recipes of the standard catalog -/

namespace Recipe

/-- What a recipe makes where kernels are found by `kernel?`. -/
def outcome (kernel? : String → Option Kernel) : Recipe → Option Product
  | .done product => some product
  | .fail _ => none
  | .use name next =>
      match kernel? name with
      | some k => outcome kernel? (next (.kernel k))
      | none => none

/-- Whether a recipe asks for kernels alone. -/
inductive AsksForKernels : Recipe → Prop
  | done (product : Product) : AsksForKernels (.done product)
  | fail (e : Error) : AsksForKernels (.fail e)
  | useKernel (name : String) (next : Kernel → Recipe) (h : ∀ k, AsksForKernels (next k)) :
      AsksForKernels (useKernel name next)

/-- A recipe that has its result asks for nothing. -/
theorem asksForKernels_ofResult (r : Result Product) : (ofResult r).AsksForKernels := by
  cases r with
  | ok product => exact .done product
  | error e => exact .fail e

/-- A trainer with its own kernel asks for nothing else. -/
theorem asksForKernels_ofTrainer (name : String) (t : Trainer) :
    (ofTrainer name t).AsksForKernels := by
  rw [ofTrainer]
  split
  · exact .fail _
  · exact .done _

/-- The recipe of a trainer asks for a kernel at most. -/
theorem asksForKernels_trainer (directory : Directory) (c : Configuration) :
    (trainer directory c).AsksForKernels := by
  rw [trainer]
  split
  · exact .fail _
  · split
    · exact .fail _
    · exact asksForKernels_ofTrainer _ _
    · exact .useKernel _ _ fun k => asksForKernels_ofTrainer _ _

/-- A recipe that asks for a kernel goes on with the one that is named. -/
theorem outcome_useKernel (kernel? : String → Option Kernel) (name : String)
    (next : Kernel → Recipe) :
    (useKernel name next).outcome kernel? = (kernel? name).bind fun k =>
      (next k).outcome kernel? := by
  rw [useKernel, outcome]
  cases kernel? name <;> rfl

/-- More kernels to be found leave what a recipe makes. -/
theorem outcome_mono {kernel? other? : String → Option Kernel}
    (hmore : ∀ name k, kernel? name = some k → other? name = some k) {recipe : Recipe}
    {product : Product} (h : recipe.outcome kernel? = some product) :
    recipe.outcome other? = some product := by
  induction recipe with
  | done p => exact h
  | fail e => exact h
  | use name next ih =>
      rw [outcome] at h ⊢
      cases hk : kernel? name with
      | none => simp [hk] at h
      | some k =>
          rw [hk] at h
          rw [hmore name k hk]
          exact ih _ h

/-- A trainer with its own kernel is a trainer. -/
theorem kind_ofTrainer {kernel? : String → Option Kernel} {name : String} {t : Trainer}
    {product : Product} (h : (ofTrainer name t).outcome kernel? = some product) :
    product.kind = .trainer := by
  rw [ofTrainer] at h
  split at h
  · simp [outcome] at h
  · simp only [outcome, Option.some.injEq] at h
    rw [← h]
    rfl

/-- The recipe of a trainer makes a trainer. -/
theorem kind_trainer {kernel? : String → Option Kernel} {directory : Directory} {c : Configuration}
    {product : Product} (h : (trainer directory c).outcome kernel? = some product) :
    product.kind = .trainer := by
  rw [trainer] at h
  split at h
  · simp [outcome] at h
  · split at h
    · simp [outcome] at h
    · exact kind_ofTrainer h
    · rw [outcome_useKernel, Option.bind_eq_some_iff] at h
      rcases h with ⟨k, -, h⟩
      exact kind_ofTrainer h

/-- A recipe that has its result makes it. -/
theorem outcome_ofResult (kernel? : String → Option Kernel) (r : Result Product) :
    (ofResult r).outcome kernel? = r.toOption := by
  cases r <;> rfl

/-- The recipe of a kernel makes a kernel. -/
theorem kind_kernel {kernel? : String → Option Kernel} {directory : Directory} {c : Configuration}
    {product : Product} (h : (kernel directory c).outcome kernel? = some product) :
    product.kind = .kernel := by
  rcases kind_make_kernel directory c with ⟨k, hk⟩ | ⟨e, he⟩
  · rw [hk, outcome, Option.some.injEq] at h
    rw [← h]
    rfl
  · rw [he, outcome] at h
    simp at h

/-- The recipe of a file makes a data source. -/
theorem kind_file {kernel? : String → Option Kernel} {format : DataFormat} {directory : Directory}
    {c : Configuration} {product : Product}
    (h : (file format directory c).outcome kernel? = some product) :
    product.kind = .dataSource := by
  rw [file, outcome_ofResult] at h
  cases hpath : c.checked "path" Configuration.text with
  | error e => simp [hpath, bind, Except.bind, Except.toOption] at h
  | ok path =>
      cases hfile : DataSource.ofFile format directory (.ofText path) with
      | error e => simp [hpath, hfile, bind, Except.bind, Except.toOption] at h
      | ok source =>
          simp only [hpath, hfile, bind, Except.bind, pure, Except.pure, Except.toOption,
            Option.some.injEq] at h
          rw [← h]
          rfl

end Recipe

/-- Whether the recipes of a class ask for kernels alone and make what the class is said to make. -/
structure CatalogEntry.Plain (entry : CatalogEntry) : Prop where
  asksForKernels : ∀ directory c, (entry.recipe directory c).AsksForKernels
  kind : ∀ directory c kernel? product,
    (entry.recipe directory c).outcome kernel? = some product → product.kind = entry.kind

/-- The classes of the standard catalog. -/
theorem Catalog.eq_of_entry?_standard {className : String} {entry : CatalogEntry}
    (h : standard.entry? className = some entry) :
    (className = Trainer.className ∧ entry = ⟨.trainer, Recipe.trainer⟩) ∨
      ((className = "LinearKernel" ∨ className = "RBFKernel" ∨ className = "PolynomialKernel") ∧
        entry = ⟨.kernel, Recipe.kernel⟩) ∨
      ∃ format, className = DataSource.fileClass format ∧
        entry = ⟨.dataSource, Recipe.file format⟩ := by
  have hmem : (className, entry) ∈ standard.components := Keyed.mem_of_lookup h
  simp only [standard, register, registerWrapper, registerRewrapper] at hmem
  rcases Keyed.mem_insert hmem with heq | hmem
  · exact .inr (.inr ⟨.libsvm, Prod.mk.inj heq⟩)
  rcases Keyed.mem_insert hmem with heq | hmem
  · exact .inr (.inr ⟨.csv, Prod.mk.inj heq⟩)
  rcases Keyed.mem_insert hmem with heq | hmem
  · exact .inr (.inl ⟨.inr (.inr (Prod.mk.inj heq).1), (Prod.mk.inj heq).2⟩)
  rcases Keyed.mem_insert hmem with heq | hmem
  · exact .inr (.inl ⟨.inr (.inl (Prod.mk.inj heq).1), (Prod.mk.inj heq).2⟩)
  rcases Keyed.mem_insert hmem with heq | hmem
  · exact .inr (.inl ⟨.inl (Prod.mk.inj heq).1, (Prod.mk.inj heq).2⟩)
  rcases Keyed.mem_insert hmem with heq | hmem
  · exact .inl (Prod.mk.inj heq)
  · simp [empty] at hmem

/-- Every entry of the standard catalog is plain. -/
theorem Catalog.plain_of_entry?_standard {className : String} {entry : CatalogEntry}
    (h : standard.entry? className = some entry) : entry.Plain := by
  rcases eq_of_entry?_standard h with ⟨-, rfl⟩ | ⟨-, rfl⟩ | ⟨format, -, rfl⟩
  · exact ⟨Recipe.asksForKernels_trainer,
      fun directory c _ _ h => @Recipe.kind_trainer _ directory c _ h⟩
  · exact ⟨fun _ _ => Recipe.asksForKernels_ofResult _,
      fun directory c _ _ h => @Recipe.kind_kernel _ directory c _ h⟩
  · exact ⟨fun _ _ => Recipe.asksForKernels_ofResult _,
      fun directory c _ _ h => @Recipe.kind_file _ format directory c _ h⟩

/-! ## What is described -/

/-- A class that makes kernels is known as one. -/
theorem Catalog.entry?_of_ofConfiguration {c : Configuration} {k : Kernel}
    (h : Kernel.ofConfiguration c = .ok k) :
    standard.entry? c.className = some ⟨.kernel, Recipe.kernel⟩ := by
  have hclass : c.className = "LinearKernel" ∨ c.className = "RBFKernel" ∨
      c.className = "PolynomialKernel" := by
    rw [Kernel.ofConfiguration] at h
    split at h
    · exact .inl ‹_›
    · split at h
      · exact .inr (.inl ‹_›)
      · split at h
        · exact .inr (.inr ‹_›)
        · exact absurd h (by simp)
  rcases hclass with hclass | hclass | hclass <;> rw [hclass] <;> rfl

/-- The kernel that configurations describe under a name. -/
def kernelNamed (configs : List Configuration) (name : String) : Option Kernel :=
  (configs.find? fun c => c.name == name).bind fun c => (Kernel.ofConfiguration c).toOption

/-- What configurations describe under a name. -/
def described (directory : Directory) (configs : List Configuration) (name : String) :
    Option Product :=
  (configs.find? fun c => c.name == name).bind fun c =>
    (Catalog.standard.entry? c.className).bind fun entry =>
      (entry.recipe directory c).outcome (kernelNamed configs)

/-- A kernel has a name if its configuration makes it. -/
theorem kernelNamed_eq_some_iff {configs : List Configuration} {name : String} {k : Kernel} :
    kernelNamed configs name = some k ↔
      ∃ c, (configs.find? fun c => c.name == name) = some c ∧ Kernel.ofConfiguration c = .ok k := by
  simp only [kernelNamed, Option.bind_eq_some_iff, toOption_eq_some_iff]

/-- A product is described if its recipe makes it of the named kernels. -/
theorem described_eq_some_iff {directory : Directory} {configs : List Configuration} {name : String}
    {product : Product} :
    described directory configs name = some product ↔
      ∃ c entry, (configs.find? fun c => c.name == name) = some c ∧
        Catalog.standard.entry? c.className = some entry ∧
          (entry.recipe directory c).outcome (kernelNamed configs) = some product := by
  simp only [described, Option.bind_eq_some_iff]
  constructor
  · rintro ⟨c, hc, entry, hentry, h⟩
    exact ⟨c, entry, hc, hentry, h⟩
  · rintro ⟨c, entry, hc, hentry, h⟩
    exact ⟨c, hc, entry, hentry, h⟩

/-- The kernels that recipes ask for are what is described under their names. -/
theorem described_eq_kernel_iff {directory : Directory} {configs : List Configuration}
    {name : String} {k : Kernel} :
    described directory configs name = some (.kernel k) ↔ kernelNamed configs name = some k := by
  rw [described_eq_some_iff, kernelNamed_eq_some_iff]
  constructor
  · rintro ⟨c, entry, hc, hentry, h⟩
    refine ⟨c, hc, ?_⟩
    have hkind := (Catalog.plain_of_entry?_standard hentry).kind _ _ _ _ h
    rcases Catalog.eq_of_entry?_standard hentry with ⟨-, rfl⟩ | ⟨-, rfl⟩ | ⟨format, -, rfl⟩
    · exact absurd hkind (by simp [Product.kind])
    · simp only [Recipe.kernel, Recipe.outcome_ofResult, toOption_eq_some_iff] at h
      cases hk : Kernel.ofConfiguration c with
      | error e => simp [hk, Except.map] at h
      | ok other => simpa [hk, Except.map] using h
    · exact absurd hkind (by simp [Product.kind])
  · rintro ⟨c, hc, hk⟩
    refine ⟨c, _, hc, Catalog.entry?_of_ofConfiguration hk, ?_⟩
    simp [Recipe.kernel, hk, Recipe.outcome_ofResult, Except.map, Except.toOption]

/-- Further configurations leave the kernels that are described. -/
theorem kernelNamed_append {configs : List Configuration} {name : String} {k : Kernel}
    (h : kernelNamed configs name = some k) (more : List Configuration) :
    kernelNamed (configs ++ more) name = some k := by
  rcases kernelNamed_eq_some_iff.1 h with ⟨c, hc, hk⟩
  exact kernelNamed_eq_some_iff.2 ⟨c, by rw [List.find?_append, hc]; rfl, hk⟩

/-- Further configurations leave what is described. -/
theorem described_append {directory : Directory} {configs : List Configuration} {name : String}
    {product : Product} (h : described directory configs name = some product)
    (more : List Configuration) : described directory (configs ++ more) name = some product := by
  rcases described_eq_some_iff.1 h with ⟨c, entry, hc, hentry, hproduct⟩
  exact described_eq_some_iff.2 ⟨c, entry, by rw [List.find?_append, hc]; rfl, hentry,
    Recipe.outcome_mono (fun _ _ hk => kernelNamed_append hk more) hproduct⟩

end Retrace
