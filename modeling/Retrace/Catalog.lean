import Retrace.Trainer

/-!
# Catalogs

A catalog knows classes of components and of datasets by name.  A class of components has a kind and
a recipe for every configuration: the recipe may ask for other components by name before it ends
with what it makes.  A class of datasets says how it is made from a source, or how it is made from
another dataset and a record.

Main results:

- Theorem `kind_make_kernel`: the recipe of a kernel ends without asking for components.
-/

namespace Retrace

/-- A component in use. Trainers and data sources have an identity, kernels are values. -/
inductive Component where
  | trainer (handle : Nat)
  | dataSource (handle : Nat) (source : DataSource)
  | kernel (kernel : Kernel)

/-- The kind of a component. -/
def Component.kind : Component → ComponentKind
  | .trainer _ => .trainer
  | .dataSource .. => .dataSource
  | .kernel _ => .kernel

/-- What a recipe makes. -/
inductive Product where
  | trainer (trainer : Trainer)
  | dataSource (source : DataSource)
  | kernel (kernel : Kernel)

/-- The kind of a product. -/
def Product.kind : Product → ComponentKind
  | .trainer _ => .trainer
  | .dataSource _ => .dataSource
  | .kernel _ => .kernel

/-- How a component is made. -/
inductive Recipe where
  | done (product : Product)
  | fail (e : Error)
  /-- ask for the component with a name -/
  | use (name : String) (next : Component → Recipe)

namespace Recipe

/-- Ask for a component of a kind. -/
def useOf (kind : ComponentKind) (name : String) (next : Component → Recipe) : Recipe :=
  .use name fun c =>
    if c.kind = kind then next c else .fail (.component name (.wrongKind kind c.kind))

/-- Ask for a kernel. -/
def useKernel (name : String) (next : Kernel → Recipe) : Recipe :=
  .use name fun c =>
    match c with
    | .kernel k => next k
    | c => .fail (.component name (.wrongKind .kernel c.kind))

/-- End with a product or an error. -/
def ofResult : Result Product → Recipe
  | .ok product => .done product
  | .error e => .fail e

end Recipe

/-! ## Making components from configurations -/

namespace Configuration

/-- A property as it was read, or the error of the component. -/
def checked {β : Type} (c : Configuration) (key : String)
    (reader : Configuration → String → Except PropertyFault β) : Result β :=
  (reader c key).mapError (Error.ofProperty c.name key)

/-- A property that must be there. -/
def needed {β : Type} (c : Configuration) (key : String)
    (reader : Configuration → String → Except PropertyFault (Option β)) : Result β :=
  match c.checked key reader with
  | .error e => .error e
  | .ok (some value) => .ok value
  | .ok none => .error (.component c.name (.lacks key))

end Configuration

/-- The kernel that a configuration describes. -/
def Kernel.ofConfiguration (c : Configuration) : Result Kernel :=
  if c.className = "LinearKernel" then .ok .linear
  else if c.className = "RBFKernel" then do
    let gamma ← c.needed "gamma" Configuration.float?
    (Kernel.mkRbf gamma).mapError .parameter
  else if c.className = "PolynomialKernel" then do
    let degree ← c.needed "degree" Configuration.smallWord?
    let gamma ← c.needed "gamma" Configuration.float?
    let coef0 ← c.needed "coef0" Configuration.float?
    (Kernel.mkPolynomial degree gamma coef0).mapError .parameter
  else .error (.component c.name (.unknownKernel c.className))

/-- The trainer that a configuration describes, its kernel aside. -/
def Trainer.ofConfiguration (c : Configuration) : Result Trainer := do
  let s := Settings.standard
  let t := Trainer.standard
  let penalty ← c.checked "c" Configuration.float?
  let tolerance ← c.checked "epsilon" Configuration.float?
  let maxSweeps ← c.checked "max-iterations" Configuration.word?
  let maxPasses ← c.checked "max-passes" Configuration.word?
  let cacheSize ← c.checked "cache-size" Configuration.word?
  let seed ← c.checked "seed" Configuration.long?
  let count ← c.checked "initial-rng-draws" Configuration.word?
  return {
    settings := {
      penalty := penalty.getD s.penalty
      tolerance := tolerance.getD s.tolerance
      maxSweeps := maxSweeps.getD s.maxSweeps
      maxPasses := maxPasses.getD s.maxPasses
      cacheSize := cacheSize.getD s.cacheSize }
    kernel := t.kernel
    seed := (seed.map Int64.toUInt64).getD t.seed
    count := count.getD t.count }

namespace Recipe

/-- The recipe of a trainer whose settings must be in range. -/
def ofTrainer (name : String) (t : Trainer) : Recipe :=
  match t.settings.fault? with
  | some fault => .fail (.componentCause name (.parameter fault))
  | none => .done (.trainer t)

/-- The recipe of trainers: settings first, then the kernel that is referred to. -/
def trainer (_ : Directory) (c : Configuration) : Recipe :=
  match Trainer.ofConfiguration c with
  | .error e => .fail e
  | .ok t =>
      match c.checked "kernel" Configuration.reference? with
      | .error e => .fail e
      | .ok none => ofTrainer c.name t
      | .ok (some name) => useKernel name fun k => ofTrainer c.name { t with kernel := k }

/-- The recipe of kernels. -/
def kernel (_ : Directory) (c : Configuration) : Recipe :=
  ofResult ((Kernel.ofConfiguration c).map .kernel)

/-- The recipe of files of a format. -/
def file (format : DataFormat) (directory : Directory) (c : Configuration) : Recipe :=
  ofResult <| do
    let path ← c.checked "path" Configuration.text
    let source ← DataSource.ofFile format directory (.ofText path)
    return .dataSource source

end Recipe

/-! ## Catalogs -/

/-- A class of components. -/
structure CatalogEntry where
  kind : ComponentKind
  recipe : Directory → Configuration → Recipe

/-- Classes by name. -/
structure Catalog where
  components : List (String × CatalogEntry)
  /-- datasets made from a source -/
  wrappers : List (String × (DataSource → Result Dataset))
  /-- datasets made from another dataset and a record -/
  rewrappers : List (String × (Dataset → Record → Result Dataset))

namespace Catalog

/-- A catalog without classes. -/
def empty : Catalog :=
  ⟨[], [], []⟩

/-- The catalog with a class of components added or replaced. -/
def register (c : Catalog) (className : String) (kind : ComponentKind)
    (recipe : Directory → Configuration → Recipe) : Catalog :=
  { c with components := Keyed.insert className ⟨kind, recipe⟩ c.components }

/-- The catalog with a class of datasets over a source added or replaced. -/
def registerWrapper (c : Catalog) (className : String) (wrap : DataSource → Result Dataset) :
    Catalog :=
  { c with wrappers := Keyed.insert className wrap c.wrappers }

/-- The catalog with a class of datasets over datasets added or replaced. -/
def registerRewrapper (c : Catalog) (className : String)
    (rewrap : Dataset → Record → Result Dataset) : Catalog :=
  { c with rewrappers := Keyed.insert className rewrap c.rewrappers }

/-- The catalog of the classes of this library. -/
def standard : Catalog :=
  empty
    |>.register "SVMTrainer" .trainer Recipe.trainer
    |>.register "LinearKernel" .kernel Recipe.kernel
    |>.register "RBFKernel" .kernel Recipe.kernel
    |>.register "PolynomialKernel" .kernel Recipe.kernel
    |>.register "CSVSource" .dataSource (Recipe.file .csv)
    |>.register "LibSVMSource" .dataSource (Recipe.file .libsvm)
    |>.registerWrapper "MutableDataset" Dataset.ofSource
    |>.registerRewrapper "MinimumCardinalityDataset" Dataset.replay

/-- The class of components with a name. -/
def entry? (c : Catalog) (className : String) : Option CatalogEntry :=
  Keyed.lookup className c.components

/-- The kind of the components of a class. -/
def kindOf? (c : Catalog) (className : String) : Option ComponentKind :=
  (c.entry? className).map CatalogEntry.kind

/-- Make a dataset of a class from a source. -/
def wrap (c : Catalog) (className : String) (source : DataSource) : Result Dataset :=
  match Keyed.lookup className c.wrappers with
  | some f => f source
  | none => .error (.recovery (.noWrapper className))

/-- Make the dataset of a record from another dataset. -/
def rewrap (c : Catalog) (record : Record) (inner : Dataset) : Result Dataset :=
  match Keyed.lookup record.className c.rewrappers with
  | some f => f inner record
  | none => .error (.recovery (.noRewrapper record.className))

/-- The catalog as diagnostics show it. -/
def render (c : Catalog) : String :=
  "Catalog \x7b components: " ++ Text.quoteList (c.components.map Prod.fst) ++ ", datasets: " ++
    Text.quoteList (c.wrappers.map Prod.fst) ++ ", rewrappers: " ++
    Text.quoteList (c.rewrappers.map Prod.fst) ++ " \x7d"

end Catalog

/-! ## Laws -/

/-- The recipe of a kernel ends without asking for components. -/
theorem Recipe.kind_make_kernel (d : Directory) (c : Configuration) :
    (∃ k, Recipe.kernel d c = .done (.kernel k)) ∨ ∃ e, Recipe.kernel d c = .fail e := by
  unfold Recipe.kernel
  cases Kernel.ofConfiguration c with
  | ok k => exact .inl ⟨k, rfl⟩
  | error e => exact .inr ⟨e, rfl⟩

end Retrace
