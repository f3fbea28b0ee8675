import Retrace.Catalog

/-!
# Workshops

A workshop holds configurations by name and makes the components that they describe when they are
first asked for.  Components refer to each other by name; a chain of references that comes back to a
component that is being made is refused.  Overriding a property forgets what was made, for any of it
may have been made from the old value.

What a workshop does can fail, and what was done before the failure stays.

Main results:

- Theorem `config_set`: an override changes one configuration.
-/

namespace Retrace

/-- Configurations, and what was made from them. -/
structure Workshop where
  catalog : Catalog
  /-- the configurations in the order of their registration -/
  configurations : List Configuration
  instances : List (String × Component)
  /-- the names of the components that are being made, the innermost one last -/
  making : List String
  /-- the trainers by handle -/
  trainers : List Trainer
  /-- how many data sources were made -/
  sources : Nat

/-- A step of work that may fail and may change the workshop in either case. -/
abbrev Work := ExceptT Error (StateM Workshop)

namespace Workshop

/-- An empty workshop with a catalog. -/
def ofCatalog (catalog : Catalog) : Workshop :=
  ⟨catalog, [], [], [], [], 0⟩

/-- The configuration with a name. -/
def configuration? (w : Workshop) (name : String) : Option Configuration :=
  w.configurations.find? fun c => c.name == name

/-- The trainer with a handle. -/
def trainer? (w : Workshop) (handle : Nat) : Option Trainer :=
  w.trainers[handle]?

/-! ## Configurations -/

/-- Register a configuration under a name that is not yet taken. -/
def addOne (c : Configuration) : Work Unit := do
  if ((← get).configuration? c.name).isSome then
    throw (.component c.name .registeredTwice)
  modify fun w => { w with configurations := w.configurations ++ [c] }

/-- Register configurations up to the first one that cannot be registered. -/
def add : List Configuration → Work Unit
  | [] => pure ()
  | c :: rest => do
      addOne c
      add rest

/-- The configurations with a property of the one with a name set. -/
def override (name key : String) (value : Property) (configs : List Configuration) :
    List Configuration :=
  configs.map fun c => if c.name = name then c.set key value else c

/-- Override a property and forget what was made. -/
def setProperty (name key : String) (value : Property) : Work Unit := do
  if ((← get).configuration? name).isNone then
    throw (.component name .notRegistered)
  modify fun w => { w with
    configurations := override name key value w.configurations
    instances := [] }

/-! ## Components -/

/-- Put a product into the workshop. -/
def keep (product : Product) : Work Component :=
  match product with
  | .kernel k => pure (.kernel k)
  | .dataSource s => do
      let handle := (← get).sources
      modify fun w => { w with sources := w.sources + 1 }
      pure (.dataSource handle s)
  | .trainer t => do
      let handle := (← get).trainers.length
      modify fun w => { w with trainers := w.trainers ++ [t] }
      pure (.trainer handle)

/-- Follow a recipe, looking components up by `look`. -/
def follow (look : String → Work Component) : Recipe → Work Product
  | .done product => pure product
  | .fail e => throw e
  | .use name next => do
      let c ← look name
      follow look (next c)

/-- Make the component that a configuration describes.  A failure is that of this component unless
it is already that of another one. -/
def make (look : String → Work Component) (directory : Directory) (c : Configuration) :
    Work Component := do
  match (← get).catalog.entry? c.className with
  | none => throw (.component c.name (.unknownClass c.className))
  | some entry =>
      let product ← (follow look (entry.recipe directory c)).adapt (Error.within c.name)
      if product.kind = entry.kind then keep product
      else throw (.component c.name (.built c.className entry.kind product.kind))

/-- The work on the innermost component that is being made has ended. -/
def endMaking : Work Unit :=
  modify fun w => { w with making := w.making.dropLast }

/-- Do some work with a name among those that are being made.  A broken contract stops the work
where it is, and the name stays. -/
def whileMaking {β : Type} (name : String) (work : Work β) : Work β := do
  modify fun w => { w with making := w.making ++ [name] }
  try
    let value ← work
    endMaking
    pure value
  catch e =>
    unless e.isBreach do endMaking
    throw e

/-- Look a component up, following references to a depth of `fuel`. -/
def lookupWithin (directory : Directory) : Nat → String → Work Component
  | fuel, name => do
      let w ← get
      match Keyed.lookup name w.instances with
      | some c => pure c
      | none =>
          match w.configuration? name with
          | none => throw (.component name .notRegistered)
          | some config =>
              if w.making.contains name then
                throw (.component name (.cycle (w.making ++ [name])))
              else
                match fuel with
                | 0 => throw (.component name (.cycle (w.making ++ [name])))
                | fuel + 1 => do
                    let c ← whileMaking name (make (lookupWithin directory fuel) directory config)
                    modify fun w => { w with instances := Keyed.insert name c w.instances }
                    pure c

/-- How deep references can go: no component is made inside itself. -/
def depth (w : Workshop) : Nat :=
  w.configurations.length + 1

/-- The component with a name, made when it is first asked for. -/
def lookup (directory : Directory) (name : String) : Work Component := do
  lookupWithin directory (← get).depth name

/-- Make a component from a configuration that need not be registered. -/
def construct (directory : Directory) (c : Configuration) : Work Component := do
  make (lookupWithin directory (← get).depth) directory c

/-- Look components up one after the other. -/
def lookupAll (directory : Directory) : List String → Work (List (String × Component))
  | [] => pure []
  | name :: rest => do
      let c ← lookup directory name
      let more ← lookupAll directory rest
      pure ((name, c) :: more)

/-- The names of the configurations with a property, in the order of their registration. -/
def namesWhere (p : Configuration → Bool) (w : Workshop) : List String :=
  (w.configurations.filter p).map Configuration.name

/-- Every component of a class. -/
def allOfClass (directory : Directory) (className : String) : Work (List (String × Component)) := do
  lookupAll directory ((← get).namesWhere fun c => c.className == className)

/-- The names of the configurations whose class makes components of a kind. -/
def namesOfKind (kind : ComponentKind) (w : Workshop) : List String :=
  w.namesWhere fun c => w.catalog.kindOf? c.className == some kind

/-- Every component whose class makes components of a kind. -/
def allOfKind (directory : Directory) (kind : ComponentKind) :
    Work (List (String × Component)) := do
  lookupAll directory ((← get).namesOfKind kind)

/-! ## Resolving -/

/-- The kernel with a name. -/
def kernel (directory : Directory) (name : String) : Work Kernel := do
  match ← lookup directory name with
  | .kernel k => pure k
  | c => throw (.component name (.wrongKind .kernel c.kind))

/-- The data source with a name. -/
def dataSource (directory : Directory) (name : String) : Work DataSource := do
  match ← lookup directory name with
  | .dataSource _ s => pure s
  | c => throw (.component name (.wrongKind .dataSource c.kind))

/-- The handle of the trainer with a name. -/
def trainer (directory : Directory) (name : String) : Work Nat := do
  match ← lookup directory name with
  | .trainer handle => pure handle
  | c => throw (.component name (.wrongKind .trainer c.kind))

/-- Train the trainer with a handle on a dataset. -/
def train (occasion : Occasion) (handle : Nat) (d : Dataset) : Work Model := do
  match (← get).trainer? handle with
  | none => throw (.breach .outOfRange)
  | some t =>
      let (result, t) := t.train occasion d
      modify fun w => { w with trainers := w.trainers.set handle t }
      match result with
      | .ok m => pure m
      | .error e => throw e

/-! ## Laws -/

/-- An override changes one configuration. -/
theorem config_set (name key other : String) (value : Property) (configs : List Configuration) :
    (override name key value configs).find? (fun c => c.name == other) =
      (configs.find? fun c => c.name == other).map fun c =>
        if c.name = name then c.set key value else c := by
  induction configs with
  | nil => rfl
  | cons c rest ih =>
      have hname : (if c.name = name then c.set key value else c).name = c.name := by
        split <;> rfl
      simp only [override, List.map_cons, List.find?_cons, hname]
      split
      · rfl
      · exact ih

end Workshop
end Retrace
