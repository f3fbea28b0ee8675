import Retrace.Proofs.ReproductionCalls
import Retrace.Proofs.Retraining
import Retrace.Proofs.ShiftedHandles

/-!
# Reproductions can be repeated

A reproduction hands out trainers that count their uses, keeps what it made, and changes its own
configurations.  All the same, training the model again has the same outcome however often and after
whatever calls it is done.  Restoring the counts forgets what was made, and it puts the same counts
into the configurations each time; from there on a workshop that has made other trainers before
differs in its handles alone.

Main results:

- Theorem `mirrors_retrain`: handles do not matter to the dataset and the training.
- Theorem `fst_run_fromRecord`: the outcome depends on the record, the files and the occasion.
- Theorem `fromRecord_repeatable`: after any calls the same model is trained, or the same error is
  met.
-/

namespace Retrace

/-! ## Outcomes at two times -/

/-- Whether two outcomes of a training agree on everything but its time. -/
inductive SameButTime (occasion : Occasion) (time : Instant) : Result Model → Result Model → Prop
  | error (e : Error) : SameButTime occasion time (.error e) (.error e)
  | ok (m : Model) (dataset trainer : Record)
      (h : m.record = .trained Model.className dataset trainer occasion) :
      SameButTime occasion time (.ok m)
        (.ok { m with
          record := .trained Model.className dataset trainer { occasion with time := time } })

/-- At another time a trainer learns the same model or meets the same error. -/
theorem Trainer.sameButTime_train (t : Trainer) (occasion : Occasion) (time : Instant)
    (d : Dataset) :
    SameButTime occasion time (t.train occasion d).1
      (t.train { occasion with time := time } d).1 := by
  cases hfault : t.settings.fault? with
  | some fault =>
      rw [train_of_invalid hfault, train_of_invalid hfault]
      exact .error _
  | none =>
      have hvalid : t.validate = .ok () := by rw [validate, hfault]
      rw [train, train, hvalid, learn, learn]
      cases Search.solve t.kernel t.settings d.samples (t.drawsAt t.count) with
      | error e => exact .error e
      | ok solution => exact .ok _ d.record (t.recordAt t.count) rfl

/-- What a workshop trains is what the trainer with the handle makes of the dataset. -/
theorem Workshop.fst_run_train (occasion : Occasion) (handle : Nat) (d : Dataset) (w : Workshop) :
    ((train occasion handle d).run w).1 =
      match w.trainer? handle with
      | none => .error (.breach .outOfRange)
      | some t => (t.train occasion d).1 := by
  rw [train, run_get_bind]
  cases w.trainer? handle with
  | none => rfl
  | some t =>
      simp only
      rw [run_modify_bind]
      cases (t.train occasion d).1 <;> rfl

theorem Workshop.sameButTime_train (w : Workshop) (occasion : Occasion) (time : Instant)
    (handle : Nat) (d : Dataset) :
    SameButTime occasion time ((train occasion handle d).run w).1
      ((train { occasion with time := time } handle d).run w).1 := by
  rw [fst_run_train, fst_run_train]
  cases w.trainer? handle with
  | none => exact .error _
  | some t => exact t.sameButTime_train occasion time d

namespace Reproduction

variable {directory : Directory} {older : List Trainer} {n : Nat} {r : Reproduction}

/-! ## Older components -/

/-- A reproduction whose workshop has made other trainers and data sources before. -/
def withOlder (older : List Trainer) (n : Nat) (r : Reproduction) : Reproduction :=
  { r with workshop := r.workshop.withOlder older n }

/-- Whether the workshop of a reproduction has the standard catalog. -/
def IsStandard (r : Reproduction) : Prop :=
  r.workshop.IsStandard

/-- Work that is mirrored in the workshop is mirrored in the reproduction. -/
theorem mirrors_inWorkshop {β β' : Type} {act : β → β'} {x : Work β} {y : Work β'}
    (h : Mirrors Workshop.IsStandard (Workshop.withOlder older n) act r.workshop x y) :
    Mirrors IsStandard (withOlder older n) act r (inWorkshop x) (inWorkshop y) := by
  constructor
  · have hworkshop : (withOlder older n r).workshop = r.workshop.withOlder older n := rfl
    rw [run_inWorkshop, run_inWorkshop, hworkshop, h.run]
    rfl
  · rw [run_inWorkshop]
    exact h.holds

theorem mirrors_ofResult {β : Type} (hr : r.IsStandard) (result : Result β) :
    Mirrors IsStandard (withOlder older n) id r (ofResult result) (ofResult result) := by
  cases result with
  | ok b => exact .pure hr rfl
  | error e => exact .throw hr

theorem mirrors_reach (hr : r.IsStandard) (stage : Stage) :
    Mirrors IsStandard (withOlder older n) id r (reach stage) (reach stage) :=
  ⟨rfl, hr⟩

/-- A source is made anew behind older trainers. -/
theorem mirrors_recoverLeaf (hr : r.IsStandard) (order : DependencyOrder) (leaf : Occurrence) :
    Mirrors IsStandard (withOlder older n) id r (recoverLeaf directory order leaf)
      (recoverLeaf directory order leaf) := by
  rw [recoverLeaf]
  split
  · exact Mirrors.throw_bind hr
  · apply Mirrors.get_bind
    have hcatalog : (withOlder older n r).workshop.catalog = r.workshop.catalog := rfl
    rw [hcatalog]
    cases order.nameOf? leaf with
    | none =>
        simp only
        split
        · exact Mirrors.throw_bind hr
        · exact .throw hr
    | some name =>
        simp only
        split
        · exact Mirrors.throw_bind hr
        · apply (mirrors_inWorkshop (Workshop.mirrors_lookup name hr)).bind
          intro c s hs
          cases c with
          | trainer handle => exact .throw hs
          | dataSource handle source => exact .pure hs rfl
          | kernel k => exact .throw hs

/-- A dataset is made anew behind older trainers. -/
theorem mirrors_recoverDataset (hr : r.IsStandard) :
    Mirrors IsStandard (withOlder older n) id r (recoverDataset directory)
      (recoverDataset directory) := by
  rw [recoverDataset]
  apply Mirrors.get_bind
  have hrecord : (withOlder older n r).record = r.record := rfl
  have hcatalog : (withOlder older n r).workshop.catalog = r.workshop.catalog := rfl
  rw [hrecord, hcatalog]
  apply (mirrors_ofResult hr _).bind
  intro recorded s hs
  apply (mirrors_ofResult hs _).bind
  intro lineage s hs
  apply (mirrors_ofResult hs _).bind
  intro chain s hs
  apply (mirrors_recoverLeaf hs _ _).bind
  intro source s hs
  apply (mirrors_ofResult hs _).bind
  intro replayed s hs
  apply (mirrors_ofResult hs _).bind
  intro wrapped s hs
  apply (mirrors_ofResult hs _).bind
  intro d s hs
  apply (mirrors_reach hs _).bind
  intro _ t ht
  exact .pure ht rfl

/-! ## What follows the recovery of a trainer -/

/-- What is left to do of a training when the trainer was recovered. -/
def retrain (directory : Directory) (occasion : Occasion) (handle : Nat) : Step Model := do
  let d ← recoverDataset directory
  let m ← inWorkshop (Workshop.train occasion handle d)
  reach .retrained
  return m

/-- A training again recovers the trainer first. -/
theorem fromRecord_eq_bind (directory : Directory) (occasion : Occasion) :
    fromRecord directory occasion = recoverTrainer directory >>= retrain directory occasion :=
  rfl

/-- Handles do not matter to the dataset and the training. -/
theorem mirrors_retrain (directory : Directory) (older : List Trainer) (n : Nat)
    (hr : r.IsStandard) (occasion : Occasion) (handle : Nat) :
    Mirrors IsStandard (withOlder older n) id r (retrain directory occasion handle)
      (retrain directory occasion (older.length + handle)) := by
  rw [retrain, retrain]
  apply (mirrors_recoverDataset hr).bind
  intro d s hs
  apply (mirrors_inWorkshop (Workshop.mirrors_train occasion handle d hs)).bind
  intro m t ht
  apply (mirrors_reach ht _).bind
  intro _ u hu
  exact .pure hu rfl

/-- What is trained is what the trainer with a handle makes of the recovered dataset. -/
theorem fst_run_retrain (occasion : Occasion) (handle : Nat) (r : Reproduction) :
    ((retrain directory occasion handle).run r).1 =
      match (recoverDataset directory).run r with
      | (.error e, _) => .error e
      | (.ok d, s) => ((Workshop.train occasion handle d).run s.workshop).1 := by
  rw [retrain]
  rcases hdataset : (recoverDataset directory).run r with ⟨found, s⟩
  cases found with
  | error e => rw [run_bind_error hdataset]
  | ok d =>
      have hwork := run_inWorkshop (Workshop.train occasion handle d) s
      rw [run_bind_ok hdataset]
      simp only
      rcases htrain : (Workshop.train occasion handle d).run s.workshop with ⟨result, w⟩
      rw [htrain] at hwork
      cases result with
      | error e => rw [run_bind_error hwork]
      | ok m =>
          rw [run_bind_ok hwork]
          rfl

/-- At another time the same is trained from the same state. -/
theorem sameButTime_retrain (occasion : Occasion) (time : Instant) (handle : Nat)
    (r : Reproduction) :
    SameButTime occasion time ((retrain directory occasion handle).run r).1
      ((retrain directory { occasion with time := time } handle).run r).1 := by
  rw [fst_run_retrain, fst_run_retrain]
  rcases (recoverDataset directory).run r with ⟨found, s⟩
  cases found with
  | error e => exact .error e
  | ok d => exact Workshop.sameButTime_train s.workshop occasion time handle d

/-! ## Recovering again -/

/-- The first trainer among shifted components is shifted. -/
theorem firstTrainer_shiftAll (trainers sources : Nat) (found : List (String × Component)) :
    firstTrainer (Workshop.shiftAll trainers sources found) =
      (firstTrainer found).map (trainers + ·) := by
  induction found with
  | nil => rfl
  | cons e rest ih =>
      rcases e with ⟨name, c⟩
      cases c with
      | trainer handle => rfl
      | dataSource handle source => exact ih
      | kernel k => exact ih

/-- With older components around the same trainer is recovered under a greater handle. -/
theorem recoverRestored_withOlder (directory : Directory) (older : List Trainer) (n : Nat)
    {w : Workshop} (hw : w.IsStandard) (className : String) :
    recoverRestored directory className (w.withOlder older n) =
        ((recoverRestored directory className w).1.map (older.length + ·),
          (recoverRestored directory className w).2.withOlder older n) ∧
      (recoverRestored directory className w).2.IsStandard := by
  have hcatalog : (w.withOlder older n).catalog = w.catalog := rfl
  have hmirrors : Mirrors Workshop.IsStandard (Workshop.withOlder older n)
      (Workshop.shiftAll older.length n) w (Workshop.allOfClass directory className)
      (Workshop.allOfClass directory className) := Workshop.mirrors_allOfClass className hw
  have hrun := hmirrors.run
  have hholds := hmirrors.holds
  rw [recoverRestored, recoverRestored, hcatalog]
  split
  · exact ⟨rfl, hw⟩
  · rcases hall : (Workshop.allOfClass directory className).run w with ⟨found, v⟩
    rw [hall] at hrun hholds
    rw [hrun]
    cases found with
    | error e => exact ⟨rfl, hholds⟩
    | ok found =>
        simp only [Except.map, firstTrainer_shiftAll]
        cases firstTrainer found <;> exact ⟨rfl, hholds⟩

/-- What is trained once the counts were restored. -/
def retrainRestored (directory : Directory) (occasion : Occasion) (className : String)
    (r : Reproduction) : Result Model :=
  match recoverRestored directory className r.workshop with
  | (.error e, _) => .error e
  | (.ok handle, w) => ((retrain directory occasion handle).run
      { r with workshop := w, stage := .trainerRecovered }).1

/-- Older components do not matter to what is trained. -/
theorem retrainRestored_withOlder (hr : r.IsStandard) (occasion : Occasion) (className : String) :
    retrainRestored directory occasion className (r.withOlder older n) =
      retrainRestored directory occasion className r := by
  obtain ⟨hrecover, hholds⟩ := recoverRestored_withOlder directory older n hr className
  have hworkshop : (r.withOlder older n).workshop = r.workshop.withOlder older n := rfl
  rw [retrainRestored, retrainRestored, hworkshop, hrecover]
  rcases hfirst : recoverRestored directory className r.workshop with ⟨found, w⟩
  rw [hfirst] at hholds
  cases found with
  | error e => rfl
  | ok handle =>
      have hmirrors := mirrors_retrain directory older n
        (r := { r with workshop := w, stage := .trainerRecovered }) hholds occasion handle
      exact hmirrors.fst_run

variable {m : ModelRecord} {reference : Option Model} {configs : List Configuration}
  {own : Occurrence}

/-- When the counts were restored, a workshop that was used is a new one but for older
components. -/
theorem restoredWorkshop_of_steady (hr : Steady directory m reference configs r)
    (hown : m.trainer = .ok own) (hconf : own.record.configurable = true)
    (hfaults : (DependencyOrder.ofRecord m.record).rows.findSome? countFault? = none) :
    restoredWorkshop (DependencyOrder.ofRecord m.record).rows r.workshop =
      (restoredWorkshop (DependencyOrder.ofRecord m.record).rows
        (.holding .standard configs)).withOlder r.workshop.trainers r.workshop.sources := by
  obtain ⟨hmem, hkind⟩ := mem_of_required hown
  obtain ⟨p, hp⟩ := DependencyOrder.exists_get? hmem
  have hrow : (p, own) ∈ (DependencyOrder.ofRecord m.record).rows := by
    apply List.mem_of_getElem? (i := p)
    rw [DependencyOrder.getElem?_rows, hp]
    rfl
  -- the trainer of the model is restored, so nothing that was made before is left
  have hnothing := instances_restoredWorkshop hfaults hrow hkind hconf
  have hconfigs := hr.restored
  rw [restorable_eq_self hfaults] at hconfigs
  have hcatalog : r.workshop.catalog = .standard := hr.served.faithful.catalog
  have hlift : restoredWorkshop (DependencyOrder.ofRecord m.record).rows r.workshop =
      ⟨r.workshop.catalog, restoredConfigs (DependencyOrder.ofRecord m.record).rows
          r.workshop.configurations,
        (restoredWorkshop (DependencyOrder.ofRecord m.record).rows r.workshop).instances,
        r.workshop.making, r.workshop.trainers, r.workshop.sources⟩ := rfl
  rw [hlift, hnothing, hcatalog, hconfigs, hr.served.idle, Workshop.withOlder, hnothing]
  simp [restoredWorkshop, Workshop.holding, Workshop.ofCatalog, Workshop.shiftAll]

/-- A training whose trainer has a configuration starts from the restored counts. -/
theorem fst_run_fromRecord_restored
    (hregistered : Registered (DependencyOrder.ofRecord r.record.record).rows r.workshop)
    (hown : r.record.trainer = .ok own) (hconf : own.record.configurable = true)
    (occasion : Occasion) :
    ((fromRecord directory occasion).run r).1 =
      match (DependencyOrder.ofRecord r.record.record).rows.findSome? countFault? with
      | some e => .error e
      | none => retrainRestored directory occasion own.record.className { r with
          workshop :=
            restoredWorkshop (DependencyOrder.ofRecord r.record.record).rows r.workshop } := by
  have hrun : (recoverTrainer directory).run r = _ :=
    run_recoverTrainer_restored hregistered hown hconf
  rw [fromRecord_eq_bind]
  cases hfaults : (DependencyOrder.ofRecord r.record.record).rows.findSome? countFault? with
  | some e =>
      rw [hfaults] at hrun
      rw [run_bind_error hrun]
  | none =>
      rw [hfaults] at hrun
      simp only at hrun
      rw [retrainRestored]
      rcases hrecover : recoverRestored directory own.record.className
        (restoredWorkshop (DependencyOrder.ofRecord r.record.record).rows r.workshop) with
        ⟨found, w⟩
      rw [hrecover] at hrun
      cases found with
      | error e => rw [run_bind_error hrun]
      | ok handle => rw [run_bind_ok hrun]

/-- What is trained from the record does not depend on what was done with the reproduction. -/
theorem fst_run_fromRecord (hr : Steady directory m reference configs r)
    (hextract : m.record.extract = .ok configs) (occasion : Occasion) :
    ((fromRecord directory occasion).run r).1 =
      ((fromRecord directory occasion).run (prepared .standard m reference configs)).1 := by
  have hnew := steady_prepared directory hextract reference
  cases hown : m.trainer with
  | error fault =>
      have hrun : (recoverTrainer directory).run r = _ :=
        run_recoverTrainer_of_error (hr.record ▸ hown)
      have hrunNew : (recoverTrainer directory).run (prepared .standard m reference configs) = _ :=
        run_recoverTrainer_of_error (hnew.record ▸ hown)
      rw [fromRecord_eq_bind, run_bind_error hrun, run_bind_error hrunNew]
  | ok own =>
      cases hconf : own.record.configurable with
      | false =>
          have hrun : (recoverTrainer directory).run r = _ :=
            run_recoverTrainer_of_not_configurable (hr.record ▸ hown) hconf
          have hrunNew : (recoverTrainer directory).run
              (prepared .standard m reference configs) = _ :=
            run_recoverTrainer_of_not_configurable (hnew.record ▸ hown) hconf
          rw [fromRecord_eq_bind, run_bind_error hrun, run_bind_error hrunNew]
      | true =>
          have hregistered := hr.registered hextract
          have hregisteredNew := hnew.registered hextract
          rw [fst_run_fromRecord_restored (hr.record ▸ hregistered) (hr.record ▸ hown) hconf,
            fst_run_fromRecord_restored (hnew.record ▸ hregisteredNew) (hnew.record ▸ hown) hconf,
            hr.record, hnew.record]
          cases hfaults : (DependencyOrder.ofRecord m.record).rows.findSome? countFault? with
          | some e => rfl
          | none =>
              -- the stages may differ, and a recovery sets them to the same one
              have hstandard : IsStandard ⟨m, reference,
                  restoredWorkshop (DependencyOrder.ofRecord m.record).rows
                    (.holding .standard configs), .configLoaded⟩ := rfl
              simp only
              rw [restoredWorkshop_of_steady hr hown hconf hfaults, hr.reference]
              exact retrainRestored_withOlder hstandard occasion own.record.className

/-- Training a model again from its record does not depend on the calls before: after any two runs
of calls, and at any two times, the same error is met or the same model is trained but for the time
in its record. -/
theorem fromRecord_repeatable (hr : ofRecord m .standard = .ok r) {first second : List Call}
    {s u : Reproduction} (hs : after directory { r with reference := reference } first = some s)
    (hu : after directory { r with reference := reference } second = some u) (occasion : Occasion)
    (time : Instant) :
    SameButTime occasion time ((fromRecord directory occasion).run s).1
      ((fromRecord directory { occasion with time := time }).run u).1 := by
  obtain ⟨configs, hextract, rfl⟩ := eq_of_ofRecord hr
  have hnew := steady_prepared directory hextract reference
  have hsteady := steady_after hnew hextract hs
  have hsteadyOther := steady_after hnew hextract hu
  rw [fst_run_fromRecord hsteady hextract, fst_run_fromRecord hsteadyOther hextract]
  rw [fromRecord_eq_bind, fromRecord_eq_bind]
  rcases hrecover : (recoverTrainer directory).run (prepared .standard m reference configs) with
    ⟨found, v⟩
  cases found with
  | error e =>
      rw [run_bind_error hrecover, run_bind_error hrecover]
      exact .error e
  | ok handle =>
      rw [run_bind_ok hrecover, run_bind_ok hrecover]
      exact sameButTime_retrain occasion time handle v

/-- An occasion some seconds after the epoch. -/
def onLinux (seconds : Int) : Occasion :=
  ⟨⟨seconds, 0⟩, "linux", "x86_64"⟩

/-- What is trained again on the points after the recovered trainer was used is what is trained
after a comparison without a reference. -/
theorem fromRecord_repeatable_axes :
    ∃ d r s u, axesPlan.load axes = .ok d ∧
      ofRecord (.ofTraining d lenient (onLinux 0)) .standard = .ok r ∧
      after axes { r with reference := none }
        [.recoverTrainer, .train (onLinux 10) 0 d, .fromRecord (onLinux 20)] = some s ∧
      after axes { r with reference := none }
        [.fromModel (onLinux 10), .allOfKind .trainer, .recoverDataset] = some u ∧
      ((fromRecord axes (onLinux 30)).run s).1.isOk = true ∧
      SameButTime (onLinux 30) ⟨60, 0⟩ ((fromRecord axes (onLinux 30)).run s).1
        ((fromRecord axes (onLinux 60)).run u).1 := by
  have hruns : ((axesPlan.load axes).toOption.any fun d =>
      (ofRecord (.ofTraining d lenient (onLinux 0)) .standard).toOption.any fun r =>
        (after axes { r with reference := none }
          [.recoverTrainer, .train (onLinux 10) 0 d, .fromRecord (onLinux 20)]).any fun s =>
            (after axes { r with reference := none }
              [.fromModel (onLinux 10), .allOfKind .trainer, .recoverDataset]).any fun _ =>
                ((fromRecord axes (onLinux 30)).run s).1.isOk) = true := by decide +kernel
  simp only [Option.any_eq_true, toOption_eq_some_iff] at hruns
  obtain ⟨d, hload, r, hr, s, hs, u, hu, hok⟩ := hruns
  exact ⟨d, r, s, u, hload, hr, hs, hu, hok,
    fromRecord_repeatable hr hs hu (onLinux 30) ⟨60, 0⟩⟩

end Reproduction
end Retrace
