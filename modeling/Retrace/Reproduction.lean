import Retrace.Record.Lineage
import Retrace.Record.Report
import Retrace.Workshop

/-!
# Reproductions

A reproduction takes the record of a model apart into configurations, makes the trainer and the
dataset anew, trains, and compares what comes out with a reference model if there is one.  It
remembers how far it came; a step that fails leaves it where it was.

Main results:

- Theorem `leaf_objects_lt`: the source at the end of a lineage lies inside the dataset.
-/

namespace Retrace

/-- How far a reproduction came. -/
inductive Stage where
  | initialized
  | configLoaded
  | trainerRecovered
  | datasetRecovered
  | retrained
  | validated
deriving DecidableEq, Repr

/-- The name of a stage. -/
def Stage.name : Stage → String
  | .initialized => "Initialized"
  | .configLoaded => "ConfigLoaded"
  | .trainerRecovered => "TrainerRecovered"
  | .datasetRecovered => "DatasetRecovered"
  | .retrained => "Retrained"
  | .validated => "Validated"

/-- The record of a model, what was made of it, and how far this came. -/
structure Reproduction where
  record : ModelRecord
  reference : Option Model
  workshop : Workshop
  stage : Stage

/-! ## Sources that can be replayed -/

/-- A side of a split as it is recorded. -/
structure SplitStep where
  proportion : Float
  seed : UInt64
  part : DataSource.Part
deriving DecidableEq, Repr

/-- The leaf of a lineage is smaller than the object. -/
theorem Occurrence.leaf_objects_lt (o : Occurrence) : ∀ l, o.lineage = .ok l →
    l.leaf.record.objects < o.record.objects := by
  fun_induction Occurrence.lineage o with
  | case1 => simp
  | case2 o hkind source hinner hsource ih =>
      intro l h
      have hlt := Occurrence.objects_lt_of_inner hinner
      cases hl : source.lineage with
      | error e => simp [hl, Except.map] at h
      | ok inner =>
          simp only [hl, Except.map, Except.ok.injEq] at h
          subst h
          exact Nat.lt_trans (ih inner hl) hlt
  | case3 o hkind source hinner hsource =>
      intro l h
      simp only [Except.ok.injEq] at h
      subst h
      exact Occurrence.objects_lt_of_inner hinner
  | case4 o hkind source hinner hsource =>
      intro l h
      simp only [Except.ok.injEq] at h
      subst h
      exact Occurrence.objects_lt_of_inner hinner
  | case5 => simp
  | case6 => simp

/-- The source that a side of a split was made from: a dataset stands for the source at its end. -/
def Occurrence.splitSource (o : Occurrence) :
    Result { i : Occurrence // i.record.objects < o.record.objects } :=
  match h : o.inner? "source" with
  | none => .error (.recovery (.splitField o.record.className "source"))
  | some inner =>
      have hlt := Occurrence.objects_lt_of_inner h
      if inner.record.kind = .dataset then
        match hl : inner.lineage with
        | .error e => .error e
        | .ok l => .ok ⟨l.leaf, Nat.lt_trans (inner.leaf_objects_lt l hl) hlt⟩
      else .ok ⟨inner, hlt⟩

/-- The side of a split that a record describes. -/
def Record.splitStep (r : Record) : Result SplitStep :=
  let missing := fun key => Except.error (Error.recovery (.splitField r.className key))
  if (r.record? "source").isNone then missing "source"
  else
    match r.long? "seed" with
    | none => missing "seed"
    | some seed =>
        match r.double? "train-proportion" with
        | none => missing "train-proportion"
        | some proportion =>
            match r.boolean? "is-train" with
            | none => missing "is-train"
            | some isTrain => .ok ⟨proportion, seed.toUInt64, if isTrain then .train else .test⟩

/-- The source at the end of a chain of splits, with the splits, the outermost first. -/
def Occurrence.splitChain (o : Occurrence) : Result (Occurrence × List SplitStep) :=
  match o.record.kind with
  | .splitDataSource =>
      match o.record.splitStep with
      | .error e => .error e
      | .ok step =>
          match o.splitSource with
          | .error e => .error e
          | .ok ⟨inner, _⟩ => (inner.splitChain).map fun found => (found.1, step :: found.2)
  | .dataSource => .ok (o, [])
  | kind => .error (.recovery (.notSource kind o.record.className))
termination_by o.record.objects

/-- Split a source by the last step first. -/
def DataSource.replaySplits (source : DataSource) : List SplitStep → Result DataSource
  | [] => .ok source
  | step :: rest =>
      match source.replaySplits rest with
      | .error e => .error e
      | .ok inner => (inner.split step.proportion step.seed step.part).mapError .recoveryCause

/-! ## Agreement -/

/-- The first place where two lists of features read differently. -/
def FeatureMap.firstDifference (index : Nat) : List FeatureInfo → List FeatureInfo → Option Nat
  | f :: fs, g :: gs =>
      if f.render = g.render then firstDifference (index + 1) fs gs else some index
  | _, _ => none

/-- How two models disagree on features and labels, if they do. -/
def Model.disagreement? (reference reproduced : Model) : Option Disagreement :=
  let a := reference.features
  let b := reproduced.features
  if a.size ≠ b.size then some (.featureCount a.size b.size)
  else
    match FeatureMap.firstDifference 0 a.features b.features with
    | some index => some (.feature index)
    | none => if reference.labels.render ≠ reproduced.labels.render then some .labels else none

namespace Reproduction

/-- A step of a reproduction that may fail and may change it in either case. -/
abbrev Step := ExceptT Error (StateM Reproduction)

/-- Prepare to reproduce a model from its record. -/
def ofRecord (record : ModelRecord) (catalog : Catalog) : Result Reproduction :=
  match record.record.extract with
  | .error fault => .error (.extraction fault)
  | .ok configs =>
      match (Workshop.add configs).run (Workshop.ofCatalog catalog) with
      | (.error e, _) => .error e
      | (.ok (), workshop) => .ok ⟨record, none, workshop, .configLoaded⟩

/-- Prepare to reproduce a model and to compare it. -/
def ofModel (m : Model) (catalog : Catalog) : Result Reproduction :=
  (ofRecord m.record catalog).map fun r => { r with reference := some m }

/-- Do some work in the workshop. -/
def inWorkshop {β : Type} (work : Work β) : Step β := do
  let r ← get
  match work.run r.workshop with
  | (.ok value, workshop) =>
      set { r with workshop := workshop }
      pure value
  | (.error e, workshop) =>
      set { r with workshop := workshop }
      throw e

/-- Say how far the reproduction came. -/
def reach (stage : Stage) : Step Unit :=
  modify fun r => { r with stage := stage }

/-- End with a result. -/
def ofResult {β : Type} : Result β → Step β
  | .ok value => pure value
  | .error e => throw e

/-! ## Data in another place -/

/-- Set the path of components. -/
def relocateAll (path : String) : List String → Work Unit
  | [] => pure ()
  | name :: rest => do
      Workshop.setProperty name "path" (.value path)
      relocateAll path rest

/-- Point every data source to a path; how many there are. -/
def relocate (path : String) : Step Nat := do
  let names := (← get).workshop.namesOfKind .dataSource
  inWorkshop (relocateAll path names)
  return names.length

/-! ## Recovery -/

/-- Restore the recorded count of every configurable trainer. -/
def restoreCounts : List (Nat × Occurrence) → Step Unit
  | [] => pure ()
  | (position, o) :: rest => do
      if o.record.kind = .trainer ∧ o.record.configurable then
        let name := componentName o.record.className position
        match o.record.long? "train-invocation-count" with
        | none => throw (.trainer (.noCount name))
        | some count =>
            if count < 0 then throw (.trainer (.negativeCount name count))
            inWorkshop (Workshop.setProperty name "initial-rng-draws"
              (.value (Primitive.long count).render))
      restoreCounts rest

/-- The handle of the first trainer among components. -/
def firstTrainer : List (String × Component) → Option Nat
  | [] => none
  | (_, .trainer handle) :: _ => some handle
  | _ :: rest => firstTrainer rest

/-- Make the recorded trainer anew; its handle. -/
def recoverTrainer (directory : Directory) : Step Nat := do
  let r ← get
  let root ← ofResult (r.record.trainer.mapError fun fault => .trainerCause (.extraction fault))
  let className := root.record.className
  if !root.record.configurable then
    throw (.trainer (.notConfigured className))
  restoreCounts (DependencyOrder.ofRecord r.record.record).rows
  if (r.workshop.catalog.entry? className).isNone then
    throw (.trainer (.notRegistered className))
  let found ← inWorkshop (Workshop.allOfClass directory className)
  match firstTrainer found with
  | none => throw (.trainer (.noComponent className))
  | some handle => do
      reach .trainerRecovered
      pure handle

/-- Make the source at the end of a chain anew. -/
def recoverLeaf (directory : Directory) (order : DependencyOrder) (leaf : Occurrence) :
    Step DataSource := do
  let className := leaf.record.className
  if !leaf.record.configurable then
    throw (.recovery (.notConfigurable className))
  if (← get).workshop.catalog.kindOf? className ≠ some .dataSource then
    throw (.recovery (.notRegistered className))
  match order.nameOf? leaf with
  | none => throw (.recovery (.notInTree className))
  | some name =>
      match ← inWorkshop (Workshop.lookup directory name) with
      | .dataSource _ source => pure source
      | _ => throw (.recovery (.notDataSource name))

/-- Make datasets around a dataset anew, the first one first. -/
def rewrapAll (catalog : Catalog) (d : Dataset) : List Occurrence → Result Dataset
  | [] => .ok d
  | o :: rest =>
      match catalog.rewrap o.record d with
      | .error e => .error e
      | .ok d => rewrapAll catalog d rest

/-- Make the recorded dataset anew. -/
def recoverDataset (directory : Directory) : Step Dataset := do
  let r ← get
  let recorded ← ofResult
    (r.record.dataset.mapError fun fault => .recoveryCause (.extraction fault))
  let lineage ← ofResult recorded.lineage
  let (leaf, splits) ← ofResult lineage.leaf.splitChain
  let source ← recoverLeaf directory (.ofRecord r.record.record) leaf
  let source ← ofResult (source.replaySplits splits)
  let wrapped ← ofResult (r.workshop.catalog.wrap lineage.wrapper.record.className source)
  let d ← ofResult (rewrapAll r.workshop.catalog wrapped lineage.outer.reverse)
  reach .datasetRecovered
  return d

/-! ## Training again -/

/-- Train the model anew. -/
def fromRecord (directory : Directory) (occasion : Occasion) : Step Model := do
  let handle ← recoverTrainer directory
  let d ← recoverDataset directory
  let m ← inWorkshop (Workshop.train occasion handle d)
  reach .retrained
  return m

/-- Train the model anew and compare it with the reference model. -/
def fromModel (directory : Directory) (occasion : Occasion) : Step Model := do
  match (← get).reference with
  | none => throw (.disagreement .noModel)
  | some reference => do
      let m ← fromRecord directory occasion
      match reference.disagreement? m with
      | some fault => throw (.disagreement fault)
      | none => do
          reach .validated
          pure m

/-- The differences between the record and that of a model. -/
def compare (r : Reproduction) (m : Model) : Result String :=
  (Difference.compareModels .standard r.record m.record).mapError .difference

end Reproduction
end Retrace
