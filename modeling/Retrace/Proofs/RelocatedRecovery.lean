import Retrace.Proofs.RelocatedExtraction
import Retrace.Proofs.RelocatedLineages
import Retrace.Proofs.RepeatedReproduction

/-!
# Recovery from records with another path

A reproduction reads its record, but not the paths in it: those were put into the configurations
when it was prepared.  So a reproduction over a record whose paths were set, with the same workshop,
takes the same steps and ends in the same way.

Main results:

- Theorem `mirrors_recoverTrainer_withRecord`, `mirrors_recoverDataset_withRecord`,
  `mirrors_fromRecord_withRecord`: the recoveries take the same steps.
- Theorem `after_withRecord`: so do all calls.
-/

namespace Retrace

/-- Work that keeps the configurations keeps the catalog. -/
theorem Workshop.retains_catalog {β : Type} {w : Workshop} {work : Work β}
    (h : Retains Workshop.orders w work) : Retains Workshop.catalog w work :=
  congrArg Prod.fst h

namespace Reproduction

open DependencyOrder (rowName)

variable {directory : Directory} {m : ModelRecord} {path : String} {r : Reproduction}

/-! ## Counts and sources -/

/-- Faults of recorded counts do not depend on paths. -/
theorem countFault?_relocate (row : Nat × Occurrence) :
    countFault? (row.1, row.2.relocate path) = countFault? row := by
  have hname : rowName (row.1, row.2.relocate path) = rowName row := rfl
  rw [countFault?, countFault?, hname]
  simp only [Occurrence.long?_relocate (show "train-invocation-count" ≠ "path" by decide),
    Occurrence.kind_relocate, Occurrence.configurable_relocate]

/-- Recorded counts do not depend on paths. -/
theorem countText?_relocate (o : Occurrence) : countText? (o.relocate path) = countText? o := by
  rw [countText?, countText?]
  simp only [Occurrence.long?_relocate (show "train-invocation-count" ≠ "path" by decide),
    Occurrence.kind_relocate, Occurrence.configurable_relocate]

/-- The counts of relocated objects are restored as those of the objects. -/
theorem restoreCounts_relocate (rows : List (Nat × Occurrence)) :
    restoreCounts (rows.map fun row => (row.1, row.2.relocate path)) = restoreCounts rows := by
  induction rows with
  | nil => rfl
  | cons row rest ih =>
      rw [List.map_cons, restoreCounts, restoreCounts, ih]
      simp only [Occurrence.long?_relocate (show "train-invocation-count" ≠ "path" by decide)]
      rfl

/-- A source is made anew by its name, and paths do not matter to that. -/
theorem recoverLeaf_relocate (order : DependencyOrder) (leaf : Occurrence) :
    recoverLeaf directory (order.relocate path) (leaf.relocate path) =
      recoverLeaf directory order leaf :=
  rfl

/-- Along a relocated route the same dataset is recovered. -/
theorem recoverAlong_relocate (order : DependencyOrder) (route : Route) :
    recoverAlong directory (order.relocate path) .standard (route.relocate path) =
      recoverAlong directory order .standard route := by
  have hleaf : recoverLeaf directory (order.relocate path) (route.relocate path).leaf =
      recoverLeaf directory order route.leaf := recoverLeaf_relocate order route.leaf
  rw [recoverAlong, recoverAlong, hleaf]
  simp only [rebuild_relocate]

/-! ## Another record -/

/-- A reproduction over another record. -/
def withRecord (n : ModelRecord) (r : Reproduction) : Reproduction :=
  { r with record := n }

/-- Whether a reproduction is over a record and has the standard catalog. -/
structure Over (m : ModelRecord) (r : Reproduction) : Prop where
  record : r.record = m
  catalog : r.workshop.catalog = .standard

/-- A result is given over another record as what is made of it there. -/
theorem mirrors_ofResult_withRecord {β β' : Type} {n : ModelRecord} (hr : Over m r)
    (result : Result β) (act : β → β') :
    Mirrors (Over m) (withRecord n) act r (ofResult result) (ofResult (result.map act)) := by
  cases result with
  | ok b => exact .pure hr rfl
  | error e => exact .throw hr

/-- A stage is reached over another record. -/
theorem mirrors_reach_withRecord {n : ModelRecord} (hr : Over m r) (stage : Stage) :
    Mirrors (Over m) (withRecord n) id r (reach stage) (reach stage) :=
  ⟨rfl, hr.record, hr.catalog⟩

/-- What is done in the workshop does not depend on the record. -/
theorem mirrors_inWorkshop_withRecord {β : Type} {n : ModelRecord} (hr : Over m r)
    {work : Work β} (h : Retains Workshop.catalog r.workshop work) :
    Mirrors (Over m) (withRecord n) id r (inWorkshop work) (inWorkshop work) := by
  have hcatalog : (work.run r.workshop).2.catalog = r.workshop.catalog := h
  constructor
  · have hworkshop : (withRecord n r).workshop = r.workshop := rfl
    rw [run_inWorkshop, run_inWorkshop, hworkshop]
    cases (work.run r.workshop).1 <;> rfl
  · rw [run_inWorkshop]
    exact ⟨hr.record, hcatalog.trans hr.catalog⟩

/-! ## Recovering and training -/

/-- Counts are restored over another record. -/
theorem mirrors_restoreCounts_withRecord {n : ModelRecord} (hr : Over m r)
    (rows : List (Nat × Occurrence)) :
    Mirrors (Over m) (withRecord n) id r (restoreCounts rows) (restoreCounts rows) := by
  induction rows generalizing r with
  | nil => exact .pure hr rfl
  | cons row rest ih =>
      rw [restoreCounts]
      split
      · simp only
        split
        · exact Mirrors.throw_bind hr
        · split
          · exact Mirrors.throw_bind hr
          · rename_i count _ _
            have hset : Retains Workshop.catalog r.workshop
                (Workshop.setProperty (componentName row.2.record.className row.1)
                  "initial-rng-draws" (.value (Primitive.long count).render)) :=
              congrArg Prod.fst (Workshop.orders_setProperty ..)
            apply (mirrors_inWorkshop_withRecord hr hset).bind
            intro _ s hs
            exact ih hs
      · exact ih hr

/-- The trainer is recovered by the same steps. -/
theorem mirrors_recoverTrainer_withRecord (hplain : m.record.pathsPlain = true) (hr : Over m r) :
    Mirrors (Over m) (withRecord (m.relocate path)) id r (recoverTrainer directory)
      (recoverTrainer directory) := by
  have htrainer : (withRecord (m.relocate path) r).record.trainer =
      r.record.trainer.map (Occurrence.relocate path) := by
    rw [hr.record]
    exact ModelRecord.required_relocate hplain path (by decide) .trainer
  have hrows : (DependencyOrder.ofRecord (withRecord (m.relocate path) r).record.record).rows =
      (DependencyOrder.ofRecord r.record.record).rows.map
        fun row => (row.1, row.2.relocate path) := by
    rw [hr.record, ← DependencyOrder.rows_relocate, ← DependencyOrder.ofRecord_relocate hplain]
    rfl
  have hmap : ∀ result : Except ExtractionFault Occurrence,
      (result.map (Occurrence.relocate path)).mapError
          (fun fault => Error.trainerCause (.extraction fault)) =
        (result.mapError fun fault => Error.trainerCause (.extraction fault)).map
          (Occurrence.relocate path) := by
    intro result
    cases result <;> rfl
  have hcatalog : (withRecord (m.relocate path) r).workshop.catalog = r.workshop.catalog := rfl
  rw [recoverTrainer]
  apply Mirrors.get_bind
  rw [htrainer, hrows, hmap, restoreCounts_relocate, hcatalog]
  apply (mirrors_ofResult_withRecord hr _ _).bind
  intro own s hs
  by_cases hconf : own.record.configurable = true
  · simp only [Occurrence.configurable_relocate, Occurrence.className_relocate, hconf,
      Bool.not_true, Bool.false_eq_true, if_false]
    apply (mirrors_restoreCounts_withRecord hs _).bind
    intro _ t ht
    by_cases hentry : (r.workshop.catalog.entry? own.record.className).isNone = true
    · simp only [hentry, if_true]
      exact Mirrors.throw_bind ht
    · simp only [hentry]
      apply (mirrors_inWorkshop_withRecord ht
        (Workshop.retains_catalog (Workshop.retains_allOfClass _ _))).bind
      intro found u hu
      simp only [id]
      cases firstTrainer found with
      | none => exact .throw hu
      | some handle =>
          apply (mirrors_reach_withRecord hu _).bind
          intro _ v hv
          exact .pure hv rfl
  · simp only [Occurrence.configurable_relocate, Occurrence.className_relocate,
      Bool.eq_false_iff.2 hconf, Bool.not_false, if_true]
    exact Mirrors.throw_bind hs

/-- A source is made anew over another record. -/
theorem mirrors_recoverLeaf_withRecord {n : ModelRecord} (hr : Over m r)
    (order : DependencyOrder) (leaf : Occurrence) :
    Mirrors (Over m) (withRecord n) id r (recoverLeaf directory order leaf)
      (recoverLeaf directory order leaf) := by
  have hcatalog : (withRecord n r).workshop.catalog = r.workshop.catalog := rfl
  rw [recoverLeaf]
  split
  · exact Mirrors.throw_bind hr
  · apply Mirrors.get_bind
    rw [hcatalog]
    cases order.nameOf? leaf with
    | none =>
        simp only
        split
        · exact Mirrors.throw_bind hr
        · exact .throw hr
    | some name =>
        simp only
        split
        · exact Mirrors.throw_bind hr
        · apply (mirrors_inWorkshop_withRecord hr
            (Workshop.retains_catalog (Workshop.retains_lookup name _))).bind
          intro c s hs
          cases c with
          | dataSource handle source => exact .pure hs rfl
          | trainer handle => exact .throw hs
          | kernel k => exact .throw hs

/-- A dataset is made anew along a route over another record. -/
theorem mirrors_recoverAlong_withRecord {n : ModelRecord} (hr : Over m r)
    (order : DependencyOrder) (route : Route) :
    Mirrors (Over m) (withRecord n) id r (recoverAlong directory order .standard route)
      (recoverAlong directory order .standard route) := by
  rw [recoverAlong]
  apply (mirrors_recoverLeaf_withRecord hr order route.leaf).bind
  intro source s hs
  have hbuilt : (rebuild .standard route source).map id = rebuild .standard route source := by
    cases rebuild .standard route source <;> rfl
  have hmirrors := mirrors_ofResult_withRecord (n := n) hs (rebuild .standard route source) id
  rw [hbuilt] at hmirrors
  apply hmirrors.bind
  intro d t ht
  apply (mirrors_reach_withRecord ht _).bind
  intro _ u hu
  exact .pure hu rfl

/-- The dataset is recovered by the same steps. -/
theorem mirrors_recoverDataset_withRecord (hplain : m.record.pathsPlain = true) (hr : Over m r) :
    Mirrors (Over m) (withRecord (m.relocate path)) id r (recoverDataset directory)
      (recoverDataset directory) := by
  have hrecord : (withRecord (m.relocate path) r).record = m.relocate path := rfl
  have hcatalog : (withRecord (m.relocate path) r).workshop.catalog = .standard := hr.catalog
  have horder : DependencyOrder.ofRecord (m.relocate path).record =
      (DependencyOrder.ofRecord m.record).relocate path :=
    DependencyOrder.ofRecord_relocate hplain path
  have hrun := @run_recoverDataset_eq directory r
  have hrunAfter := @run_recoverDataset_eq directory (withRecord (m.relocate path) r)
  rw [hr.record, hr.catalog] at hrun
  rw [hrecord, hcatalog, ModelRecord.route_relocate hplain, horder] at hrunAfter
  cases hroute : m.route with
  | error e =>
      rw [hroute] at hrun hrunAfter
      exact ⟨by rw [hrun, hrunAfter]; rfl, by rw [hrun]; exact hr⟩
  | ok route =>
      rw [hroute] at hrun hrunAfter
      have hroad : recoverAlong directory ((DependencyOrder.ofRecord m.record).relocate path)
          .standard (route.relocate path) =
            recoverAlong directory (.ofRecord m.record) .standard route :=
        recoverAlong_relocate _ route
      simp only [Except.map] at hrun hrunAfter
      rw [hroad] at hrunAfter
      have hmirrors : Mirrors (Over m) (withRecord (m.relocate path)) id r
          (recoverAlong directory (.ofRecord m.record) .standard route)
          (recoverAlong directory (.ofRecord m.record) .standard route) :=
        mirrors_recoverAlong_withRecord hr _ route
      exact ⟨by rw [hrun, hrunAfter, hmirrors.run], by rw [hrun]; exact hmirrors.holds⟩

/-- The model is trained by the same steps. -/
theorem mirrors_fromRecord_withRecord (hplain : m.record.pathsPlain = true) (hr : Over m r)
    (occasion : Occasion) :
    Mirrors (Over m) (withRecord (m.relocate path)) id r (fromRecord directory occasion)
      (fromRecord directory occasion) := by
  rw [fromRecord]
  apply (mirrors_recoverTrainer_withRecord hplain hr).bind
  intro handle s hs
  apply (mirrors_recoverDataset_withRecord hplain hs).bind
  intro d t ht
  apply (mirrors_inWorkshop_withRecord ht
    (Workshop.retains_catalog (Workshop.retains_train occasion handle d _))).bind
  intro n u hu
  apply (mirrors_reach_withRecord hu _).bind
  intro _ v hv
  exact .pure hv rfl

/-- A model is trained and compared over the rewritten record. -/
theorem mirrors_fromModel_withRecord (hplain : m.record.pathsPlain = true) (hr : Over m r)
    (occasion : Occasion) :
    Mirrors (Over m) (withRecord (m.relocate path)) id r (fromModel directory occasion)
      (fromModel directory occasion) := by
  have hreference : (withRecord (m.relocate path) r).reference = r.reference := rfl
  rw [fromModel]
  apply Mirrors.get_bind
  rw [hreference]
  cases r.reference with
  | none => exact .throw hr
  | some reference =>
      apply (mirrors_fromRecord_withRecord hplain hr occasion).bind
      intro n s hs
      simp only [id]
      cases reference.disagreement? n with
      | some fault => exact .throw hs
      | none =>
          apply (mirrors_reach_withRecord hs _).bind
          intro _ t ht
          exact .pure ht rfl

/-! ## Calls -/

/-- A call takes the same steps. -/
theorem Call.mirrors_step_withRecord (hplain : m.record.pathsPlain = true) (hr : Over m r)
    (call : Call) :
    Mirrors (Over m) (withRecord (m.relocate path)) id r (call.step directory)
      (call.step directory) := by
  have hdone : ∀ {β : Type} {x : Step β},
      Mirrors (Over m) (withRecord (m.relocate path)) id r x x →
        Mirrors (Over m) (withRecord (m.relocate path)) id r (do let _ ← x; pure ())
          (do let _ ← x; pure ()) :=
    fun hx => hx.bind fun _ _ hs => .pure hs rfl
  have hwork : ∀ {β : Type} {work : Work β}, Retains Workshop.orders r.workshop work →
      Mirrors (Over m) (withRecord (m.relocate path)) id r (inWorkshop work) (inWorkshop work) :=
    fun h => mirrors_inWorkshop_withRecord hr (Workshop.retains_catalog h)
  cases call with
  | recoverTrainer => exact hdone (mirrors_recoverTrainer_withRecord hplain hr)
  | recoverDataset => exact hdone (mirrors_recoverDataset_withRecord hplain hr)
  | fromRecord occasion => exact hdone (mirrors_fromRecord_withRecord hplain hr occasion)
  | fromModel occasion => exact hdone (mirrors_fromModel_withRecord hplain hr occasion)
  | lookup name => exact hdone (hwork (Workshop.retains_lookup name _))
  | allOfClass className => exact hdone (hwork (Workshop.retains_allOfClass className _))
  | allOfKind kind => exact hdone (hwork (Workshop.retains_allOfKind kind _))
  | train occasion handle d => exact hdone (hwork (Workshop.retains_train occasion handle d _))

/-- A call does over the rewritten record what it does over the record. -/
theorem Call.run_withRecord (hplain : m.record.pathsPlain = true) (hr : Over m r)
    (directory : Directory) (call : Call) (path : String) :
    call.run directory (withRecord (m.relocate path) r) =
        (call.run directory r).map (withRecord (m.relocate path)) ∧
      ∀ s, call.run directory r = some s → Over m s := by
  have hmirrors : Mirrors (Over m) (withRecord (m.relocate path)) id r (call.step directory)
      (call.step directory) := mirrors_step_withRecord hplain hr call
  have hrun := hmirrors.run
  have hholds := hmirrors.holds
  rw [run, run, hrun]
  rcases hstep : (call.step directory).run r with ⟨found, t⟩
  rw [hstep] at hholds
  cases found with
  | ok u =>
      refine ⟨rfl, fun s hs => ?_⟩
      rw [← Option.some.inj hs]
      exact hholds
  | error e =>
      simp only [Except.map]
      cases e.isBreach with
      | true => exact ⟨rfl, fun s hs => absurd hs (by simp)⟩
      | false =>
          refine ⟨rfl, fun s hs => ?_⟩
          rw [← Option.some.inj hs]
          exact hholds

/-- After the same calls a reproduction over a record whose paths were set has the same
workshop. -/
theorem after_withRecord (hplain : m.record.pathsPlain = true) (hr : Over m r)
    (directory : Directory) (calls : List Call) (path : String) :
    after directory (withRecord (m.relocate path) r) calls =
        (after directory r calls).map (withRecord (m.relocate path)) ∧
      ∀ s, after directory r calls = some s → Over m s := by
  induction calls generalizing r with
  | nil =>
      refine ⟨rfl, fun s hs => ?_⟩
      rw [← Option.some.inj hs]
      exact hr
  | cons call rest ih =>
      obtain ⟨hone, hholds⟩ := Call.run_withRecord hplain hr directory call path
      rw [after, after, hone]
      cases hrun : call.run directory r with
      | none => exact ⟨rfl, fun s hs => absurd hs (by simp)⟩
      | some s => exact ih (hholds s hrun)

end Reproduction
end Retrace
