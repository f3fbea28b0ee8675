import Retrace.Proofs.DatasetRecovery
import Retrace.Proofs.TrainerConfiguration

/-!
# Recovery of trainers

A reproduction that was prepared for a trained model restores the count of the trainer and then
makes the trainer from its configuration: settings, kernel, seed and count are those of the recorded
use.  The file sources stay registered and are not made, so the dataset can be recovered next.

Main results:

- Theorem `run_restoreCounts`: the count of the one trainer is restored.
- Theorem `run_recoverTrainer`: the trainer is recovered as it was used.
-/

namespace Retrace
namespace Reproduction

/-! ## Restoring the count -/

/-- Without trainers no count is restored. -/
theorem run_restoreCounts_of_ne {rows : List (Nat × Occurrence)}
    (h : ∀ row ∈ rows, row.2.record.kind ≠ .trainer) (r : Reproduction) :
    (restoreCounts rows).run r = (.ok (), r) := by
  induction rows with
  | nil => rfl
  | cons row rest ih =>
      rcases row with ⟨position, o⟩
      rw [List.forall_mem_cons] at h
      have hskip : ¬(o.record.kind = .trainer ∧ o.record.configurable = true) := fun hboth =>
        h.1 hboth.1
      rw [restoreCounts, if_neg hskip]
      exact ih h.2

/-- Where one object is a trainer its recorded count is restored. -/
theorem run_restoreCounts {before after : List (Nat × Occurrence)} {p : Nat} {o : Occurrence}
    {count : Int64} (hothers : ∀ row ∈ before ++ after, row.2.record.kind ≠ .trainer)
    (hkind : o.record.kind = .trainer) (hconf : o.record.configurable = true)
    (hcount : o.record.long? "train-invocation-count" = some count) (hsign : ¬count < 0)
    {r : Reproduction} {w : Workshop}
    (hset : (Workshop.setProperty (componentName o.record.className p) "initial-rng-draws"
      (.value (Primitive.long count).render)).run r.workshop = (.ok (), w)) :
    (restoreCounts (before ++ (p, o) :: after)).run r = (.ok (), { r with workshop := w }) := by
  -- on the rows before the trainer, which are all passed over
  induction before with
  | nil =>
      rw [List.nil_append, restoreCounts, if_pos ⟨hkind, hconf⟩]
      simp only [hcount, hsign, if_false]
      rw [run_bind_ok (run_inWorkshop_ok hset)]
      exact run_restoreCounts_of_ne hothers _
  | cons row rest ih =>
      rcases row with ⟨position, i⟩
      rw [List.cons_append, List.forall_mem_cons] at hothers
      have hskip : ¬(i.record.kind = .trainer ∧ i.record.configurable = true) := fun hboth =>
        hothers.1 hboth.1
      rw [List.cons_append, restoreCounts, if_neg hskip]
      exact ih hothers.2

/-! ## The configurations of a trained model -/

section Trained

open ModelRecord (ofTraining trainerIn kernelIn mem_occurrences_ofTraining)

variable {directory : Directory} {plan : DatasetPlan} {d : Dataset} {t : Trainer}
  {occasion : Occasion} {configs : List Configuration}

/-- Whether an object of a tree has a configuration under a name. -/
structure Names (root : Record) (configs : List Configuration) (o : Occurrence) (name : String)
    (c : Configuration) : Prop where
  inTree : o ∈ root.occurrences
  named : (DependencyOrder.ofRecord root).nameOf? o = some name
  mem : c ∈ configs
  name : c.name = name
  configures : Extraction.Configures (DependencyOrder.ofRecord root) c o

/-- A configurable object of the tree has its configuration. -/
theorem exists_names {root : Record} (h : root.extract = .ok configs) {o : Occurrence}
    (ho : o ∈ root.occurrences) (hconf : o.record.configurable = true) {name : String}
    (hname : (DependencyOrder.ofRecord root).nameOf? o = some name) :
    ∃ c, Names root configs o name c := by
  rcases Record.exists_configuration h ho hconf hname with ⟨c, hc, hcname, hconfigures⟩
  exact ⟨c, ho, hname, hc, hcname, hconfigures⟩

/-- Different objects have different names. -/
theorem Names.ne {root : Record} {o i : Occurrence} {name other : String} {c e : Configuration}
    (ho : Names root configs o name c) (hi : Names root configs i other e) (hne : o ≠ i) :
    name ≠ other := by
  rintro rfl
  exact hne (DependencyOrder.eq_of_nameOf? ho.inTree hi.inTree ho.named hi.named)

/-- The trainer and the kernel of a trained model have configurations, and that of the trainer
refers to that of the kernel. -/
theorem exists_names_trained
    (h : (ofTraining d t occasion).record.extract = .ok configs) {p : Nat}
    (hget : (DependencyOrder.ofRecord (ofTraining d t occasion).record).get? p =
      some (trainerIn d t)) :
    ∃ kernelName c k,
      Names (ofTraining d t occasion).record configs (trainerIn d t)
        (componentName Trainer.className p) c ∧
      Names (ofTraining d t occasion).record configs (kernelIn d t) kernelName k ∧
      c.property? "kernel" = some (.component kernelName) := by
  have hname : (DependencyOrder.ofRecord (ofTraining d t occasion).record).nameOf? (trainerIn d t) =
      some (componentName Trainer.className p) := by
    rw [DependencyOrder.nameOf?, (DependencyOrder.get?_eq_some_iff.1 hget).2]
    rfl
  rcases exists_names h (DependencyOrder.get?_eq_some_iff.1 hget).1 rfl hname with ⟨c, hc⟩
  have hconf := ModelRecord.configurable_kernel t.kernel
  have hfield : Keyed.lookupLast "kernel"
      (Extraction.numberFields (trainerIn d t).first (trainerIn d t).record.configured) =
        some (t.kernel.record.node, d.record.node.objects + 1) := rfl
  obtain ⟨kernelName, hkernelName, hreference⟩ :=
    hc.configures.property?_node hget hfield hconf
  obtain ⟨k, hk⟩ := exists_names h (mem_occurrences_ofTraining.2 (.inr (.inr rfl))) hconf
    hkernelName
  exact ⟨kernelName, c, k, hc, hk, hreference⟩

/-- The configurations with the recorded count of the trainer restored. -/
def restored (t : Trainer) (configs : List Configuration) (name : String) : List Configuration :=
  Workshop.override name "initial-rng-draws" (.value t.countText) configs

/-- The trainer stands in one row, and no other row is a trainer or makes one. -/
theorem exists_rows_trained (hload : plan.load directory = .ok d) {p : Nat}
    (hget : (DependencyOrder.ofRecord (ofTraining d t occasion).record).get? p =
      some (trainerIn d t)) :
    ∃ before after, (DependencyOrder.ofRecord (ofTraining d t occasion).record).rows =
        before ++ (p, trainerIn d t) :: after ∧
      ∀ row ∈ before ++ after, row.2.record.kind ≠ .trainer ∧
        ¬(row.2.record.configurable = true ∧ row.2.record.className = Trainer.className) := by
  rcases DependencyOrder.exists_rows_eq hget with ⟨before, after, hrows, hothers⟩
  refine ⟨before, after, hrows, fun row hrow => ?_⟩
  have hmem : row.2 ∈ (ofTraining d t occasion).record.occurrences := by
    have hin : row ∈ (DependencyOrder.ofRecord (ofTraining d t occasion).record).rows := by
      rw [hrows]
      exact List.perm_middle.mem_iff.2 (List.mem_cons_of_mem _ hrow)
    exact (DependencyOrder.get?_eq_some_iff.1 (DependencyOrder.get?_of_mem_rows hin)).1
  refine ⟨fun hkind => hothers row hrow (ModelRecord.eq_trainerIn_of_kind hload hmem hkind), ?_⟩
  rintro ⟨hconf, hclass⟩
  exact hothers row hrow (ModelRecord.eq_trainerIn_of_className hload hmem hconf hclass)

/-- One configuration has the class of trainers. -/
theorem namesWhere_trainer (hload : plan.load directory = .ok d)
    (h : (ofTraining d t occasion).record.extract = .ok configs) {p : Nat}
    (hget : (DependencyOrder.ofRecord (ofTraining d t occasion).record).get? p =
      some (trainerIn d t)) :
    (Workshop.holding .standard
      (restored t configs (componentName Trainer.className p))).namesWhere
        (fun c => c.className == Trainer.className) = [componentName Trainer.className p] := by
  rcases exists_rows_trained hload hget with ⟨before, after, hrows, hothers⟩
  have hnone : ∀ rows, (∀ row ∈ rows, row ∈ before ++ after) →
      (DependencyOrder.configurableRows rows).filter
        (fun row => row.2.record.className == Trainer.className) = [] := by
    intro rows hsub
    rw [DependencyOrder.configurableRows, List.filter_filter, List.filter_eq_nil_iff]
    intro row hrow hboth
    rw [Bool.and_eq_true, beq_iff_eq] at hboth
    exact (hothers row (hsub row hrow)).2 ⟨hboth.2, hboth.1⟩
  have hone : (DependencyOrder.configurableRows
      (DependencyOrder.ofRecord (ofTraining d t occasion).record).rows).filter
        (fun row => row.2.record.className == Trainer.className) = [(p, trainerIn d t)] := by
    rw [hrows, ← List.singleton_append, DependencyOrder.configurableRows_append,
      DependencyOrder.configurableRows_append, List.filter_append, List.filter_append,
      hnone before fun row hrow => List.mem_append_left _ hrow,
      hnone after fun row hrow => List.mem_append_right _ hrow]
    rfl
  have hkept : ((fun e : String × String => e.2 == Trainer.className) ∘
      fun row : Nat × Occurrence => (DependencyOrder.rowName row, row.2.record.className)) =
        fun row => row.2.record.className == Trainer.className := rfl
  have hnames : ∀ w : Workshop, w.namesWhere (fun c => c.className == Trainer.className) =
      ((w.configurations.map fun c => (c.name, c.className)).filter fun e =>
        e.2 == Trainer.className).map Prod.fst := by
    intro w
    rw [List.filter_map, List.map_map]
    rfl
  rw [hnames, Workshop.holding, restored, Workshop.map_override fun _ _ _ => rfl,
    Extraction.map_configurations h, List.filter_map, hkept, hone]
  rfl

/-- The count of the trainer is restored in its configuration. -/
theorem run_restoreCounts_trained (hload : plan.load directory = .ok d)
    (hcount : t.count.toNat < 2 ^ 63)
    (h : (ofTraining d t occasion).record.extract = .ok configs) {p : Nat}
    (hget : (DependencyOrder.ofRecord (ofTraining d t occasion).record).get? p =
      some (trainerIn d t)) (reference : Option Model) :
    (restoreCounts (DependencyOrder.ofRecord (ofTraining d t occasion).record).rows).run
      (prepared .standard (ofTraining d t occasion) reference configs) =
        (.ok (), prepared .standard (ofTraining d t occasion) reference
          (restored t configs (componentName Trainer.className p))) := by
  rcases exists_rows_trained hload hget with ⟨before, after, hrows, hothers⟩
  rcases exists_names_trained h hget with ⟨-, c, -, hc, -⟩
  have hconfig := @Workshop.configuration?_of_mem (.holding .standard configs)
    (Record.nodup_configurationNames h) c hc.mem
  rw [hc.name] at hconfig
  have hsign : ¬t.count.toInt64 < 0 := by
    rw [Int64.lt_iff_toInt_lt, Decimal.toInt_toInt64 hcount]
    simp
  rw [hrows]
  exact run_restoreCounts (fun row hrow => (hothers row hrow).1) rfl rfl rfl hsign
    (Workshop.run_setProperty hconfig)

/-! ## Making the trainer -/

/-- The workshop after the trainer of a trained model was recovered. -/
def workshopAfter (t : Trainer) (configs : List Configuration) (name kernelName : String) :
    Workshop :=
  { Workshop.holding .standard (restored t configs name) with
    instances := Keyed.insert name (.trainer 0) [(kernelName, .kernel t.kernel)]
    trainers := [t] }

/-- An override of the trainer leaves the configurations of other objects. -/
theorem configuration?_restored (h : (ofTraining d t occasion).record.extract = .ok configs)
    {o : Occurrence} {name other : String} {c : Configuration}
    (hc : Names (ofTraining d t occasion).record configs o other c) (w : Workshop)
    (hw : w.configurations = restored t configs name) :
    w.configuration? other =
      some (if other = name then c.set "initial-rng-draws" (.value t.countText) else c) := by
  have hfound := @Workshop.configuration?_of_mem { w with configurations := configs }
    (Record.nodup_configurationNames h) _ hc.mem
  rw [Workshop.configuration?, hc.name] at hfound
  rw [Workshop.configuration?, hw, restored, Workshop.config_set, hfound, Option.map_some, hc.name]

/-- Looking the trainer up makes its kernel and the trainer. -/
theorem run_lookup_trained (hkernel : t.kernel.Checked) (ht : t.Recordable)
    (hdoubles : ∀ x ∈ t.doubles, Float.ReadsBack x) (hvalid : t.settings.fault? = none)
    (h : (ofTraining d t occasion).record.extract = .ok configs) {name kernelName : String}
    {c k : Configuration}
    (hc : Names (ofTraining d t occasion).record configs (trainerIn d t) name c)
    (hk : Names (ofTraining d t occasion).record configs (kernelIn d t) kernelName k)
    (hreference : c.property? "kernel" = some (.component kernelName)) :
    (Workshop.lookup directory name).run (.holding .standard (restored t configs name)) =
      (.ok (.trainer 0), workshopAfter t configs name kernelName) := by
  -- the kernel has the number after that of the trainer
  have hne : kernelName ≠ name := by
    apply hk.ne hc
    intro heq
    have hfirst : d.record.node.objects + 2 = d.record.node.objects + 1 :=
      congrArg Occurrence.first heq
    omega
  have htrainer := Trainer.ofConfiguration_trainer ht hdoubles rfl hc.configures
  have hkernel' := Kernel.ofConfiguration_kernel hkernel
    (fun x hx => hdoubles x (List.mem_cons_of_mem _ (List.mem_cons_of_mem _ hx))) rfl hk.configures
  have hreference' : (c.set "initial-rng-draws" (.value t.countText)).property? "kernel" =
      some (.component kernelName) := by
    rw [Configuration.property_set, if_neg (by decide), hreference]
  have hconfig := configuration?_restored h hc (.holding .standard (restored t configs name)) rfl
  have hkernelConfig := configuration?_restored h hk
    (.holding .standard (restored t configs name)) rfl
  rw [if_pos rfl] at hconfig
  rw [if_neg hne] at hkernelConfig
  exact Workshop.run_lookup_trainer rfl rfl rfl hconfig hc.configures.className htrainer hreference'
    hvalid hne hkernelConfig hk.configures.className hkernel'

/-- Once the trainer was recovered the file sources are registered and not yet made. -/
theorem stocked_trained (h : (ofTraining d t occasion).record.extract = .ok configs)
    {name kernelName : String} {c k : Configuration}
    (hc : Names (ofTraining d t occasion).record configs (trainerIn d t) name c)
    (hk : Names (ofTraining d t occasion).record configs (kernelIn d t) kernelName k)
    (reference : Option Model) (stage : Stage) :
    Stocked ⟨ofTraining d t occasion, reference, workshopAfter t configs name kernelName,
      stage⟩ := by
  refine ⟨rfl, rfl, ?_⟩
  intro leaf hleaf format path recorded hrecord other hother
  rcases exists_names h hleaf (by rw [hrecord]; rfl) hother with ⟨e, he⟩
  have hkind : leaf.record.kind = .dataSource := by
    rw [hrecord]
    rfl
  have hname : other ≠ name := by
    apply he.ne hc
    rintro rfl
    simp [trainerIn, Trainer.record, Trainer.recordAt, Record.rebuildable] at hkind
  have hkernelName : other ≠ kernelName := by
    apply he.ne hk
    rintro rfl
    exact absurd ((ModelRecord.kind_kernel t.kernel).symm.trans hkind) (by decide)
  have hconfig := configuration?_restored h he (workshopAfter t configs name kernelName) rfl
  rw [if_neg hname] at hconfig
  refine ⟨?_, e, hconfig, configures_fileRecord he.configures hrecord⟩
  rw [workshopAfter, Keyed.lookup_insert, if_neg hname, Keyed.lookup, if_neg hkernelName.symm]
  rfl

/-- A trained model has a trainer that can be made, so its recovery begins with the counts. -/
theorem run_recoverTrainer_eq (directory : Directory) (reference : Option Model) :
    (recoverTrainer directory).run
        (prepared .standard (ofTraining d t occasion) reference configs) =
      (do
        restoreCounts (DependencyOrder.ofRecord (ofTraining d t occasion).record).rows
        let found ← inWorkshop (Workshop.allOfClass directory Trainer.className)
        match firstTrainer found with
        | none => throw (.trainer (.noComponent Trainer.className))
        | some handle => do
            reach .trainerRecovered
            pure handle : Step Nat).run
          (prepared .standard (ofTraining d t occasion) reference configs) := by
  have hconf : (trainerIn d t).record.configurable = true := rfl
  have hcatalog :
      (prepared .standard (ofTraining d t occasion) reference configs).workshop.catalog =
        .standard := rfl
  have hentry : (Catalog.standard.entry? (trainerIn d t).record.className).isNone = false := rfl
  have hrecord : (prepared .standard (ofTraining d t occasion) reference configs).record =
      ofTraining d t occasion := rfl
  rw [recoverTrainer, run_get_bind, hrecord, hcatalog, ModelRecord.trainer_ofTraining]
  simp only [Except.mapError]
  rw [run_bind_ok (run_ofResult_ok _ _)]
  simp only [hconf, Bool.not_true, Bool.false_eq_true, if_false, hentry]
  rfl

/-- The trainer of a trained model is recovered with the settings, the kernel, the seed and the
count of the recorded use. -/
theorem run_recoverTrainer (hload : plan.load directory = .ok d) (hkernel : t.kernel.Checked)
    (ht : t.Recordable) (hdoubles : ∀ x ∈ t.doubles, Float.ReadsBack x)
    (hvalid : t.settings.fault? = none)
    (h : (ofTraining d t occasion).record.extract = .ok configs) (reference : Option Model) :
    ∃ w, (recoverTrainer directory).run
        (prepared .standard (ofTraining d t occasion) reference configs) =
          (.ok 0, ⟨ofTraining d t occasion, reference, w, .trainerRecovered⟩) ∧
      w.trainers = [t] ∧
      Stocked ⟨ofTraining d t occasion, reference, w, .trainerRecovered⟩ := by
  obtain ⟨p, hget⟩ := DependencyOrder.exists_get?
    (mem_occurrences_ofTraining.2 (.inr (.inl rfl)) :
      trainerIn d t ∈ (ofTraining d t occasion).record.occurrences)
  rcases exists_names_trained h hget with ⟨kernelName, c, k, hc, hk, hreference⟩
  refine ⟨workshopAfter t configs (componentName Trainer.className p) kernelName, ?_, rfl,
    stocked_trained h hc hk reference _⟩
  have hrestore := run_restoreCounts_trained hload ht.count h hget reference
  have hlookup := @run_lookup_trained directory d t occasion configs hkernel ht hdoubles hvalid h _
    _ c k hc hk hreference
  have hall : (Workshop.allOfClass directory Trainer.className).run
      (.holding .standard (restored t configs (componentName Trainer.className p))) =
        (.ok [(componentName Trainer.className p, .trainer 0)],
          workshopAfter t configs (componentName Trainer.className p) kernelName) := by
    rw [Workshop.allOfClass, run_get_bind, namesWhere_trainer hload h hget, Workshop.lookupAll,
      run_bind_ok hlookup]
    rfl
  rw [run_recoverTrainer_eq, run_bind_ok hrestore, run_bind_ok (run_inWorkshop_ok hall)]
  rfl

end Trained

end Reproduction
end Retrace
