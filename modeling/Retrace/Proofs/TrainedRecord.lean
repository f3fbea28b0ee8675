import Retrace.Proofs.Extraction
import Retrace.Proofs.Lineage
import Retrace.Trainer

/-!
# Records of trained models

The tree of a trained model holds the objects of its data, one trainer and the kernel of the
trainer.  All of them can be extracted, so preparing to reproduce a trained model does not fail.

Main results:

- Theorem `extract_total`: a tree of objects that can be extracted has configurations.
- Theorem `mem_occurrences_ofTraining`: the objects of the record of a trained model.
- Theorem `extract_ofTraining`: the record of a trained model has configurations.
-/

namespace Retrace

/-! ## Extraction that succeeds -/

/-- Whether a configuration can hold a node as it stands. -/
def Node.Plain (n : Node) : Prop :=
  (∃ value, n = .primitive value) ∨ ∃ r : Record, n = r.node ∧ r.configurable = true

/-- Whether an object has a name and is configured with what a configuration can hold. -/
structure Record.Extractable (r : Record) : Prop where
  named : (Text.trim r.className.toList).isEmpty = false
  plain : r.configurable = true → ∀ e ∈ r.configured, e.2.Plain

namespace Extraction

open DependencyOrder

/-- Numbering fields keeps keys and values. -/
theorem mem_of_mem_numberFields {first : Nat} {fields : Fields} {e : String × Node × Nat}
    (h : e ∈ numberFields first fields) : (e.1, e.2.1) ∈ fields := by
  induction fields generalizing first with
  | nil => simp [numberFields] at h
  | cons f rest ih =>
      rcases List.mem_cons.1 h with rfl | h
      · exact List.mem_cons_self
      · exact List.mem_cons_of_mem _ (ih h)

/-- An object is the outermost one of itself. -/
theorem outermost_node (r : Record) (first : Nat) : r.node.Outermost first ⟨r, first + 1⟩ :=
  ⟨List.mem_cons_self, first, List.mem_singleton.2 rfl, rfl⟩

/-- A configured object is referred to by the name that the order gives it. -/
theorem property_node {root : Record} {p : Nat} {o : Occurrence}
    (ho : (ofRecord root).get? p = some o) {key : String} {r : Record} {first : Nat}
    (he : (key, r.node, first) ∈ numberFields o.first o.record.configured)
    (hconf : r.configurable = true) (path : String) :
    (⟨r, first + 1⟩ : Occurrence) ∈ root.occurrences ∧
      ∃ name, (ofRecord root).nameOf? ⟨r, first + 1⟩ = some name ∧
        property (ofRecord root) path r.node first = .ok (.component name) := by
  rcases position_lt_of_outermost ho he (outermost_node r first) with ⟨q, -, hget⟩
  rcases get?_eq_some_iff.1 hget with ⟨hmem, hposition⟩
  have hname : (ofRecord root).nameOf? ⟨r, first + 1⟩ = some (componentName r.className q) := by
    rw [nameOf?, hposition]
    rfl
  have hreference : reference (ofRecord root) path ⟨r, first + 1⟩ =
      .ok (componentName r.className q) := by
    rw [reference, if_pos hconf, hname]
  refine ⟨hmem, _, hname, ?_⟩
  have hproperty : property (ofRecord root) path r.node first =
      (reference (ofRecord root) path ⟨r, first + 1⟩).map .component := rfl
  rw [hproperty, hreference]
  rfl

/-- A configured object is a reference to the component with its name. -/
theorem Configures.property?_node {root : Record} {c : Configuration} {p : Nat} {o : Occurrence}
    (h : Configures (ofRecord root) c o) (ho : (ofRecord root).get? p = some o) {key : String}
    {r : Record} {first : Nat}
    (hkey : Keyed.lookupLast key (numberFields o.first o.record.configured) = some (r.node, first))
    (hconf : r.configurable = true) :
    ∃ name, (ofRecord root).nameOf? ⟨r, first + 1⟩ = some name ∧
      c.property? key = some (.component name) := by
  obtain ⟨-, name, hname, hproperty⟩ :=
    property_node ho (Keyed.mem_of_lookupLast hkey) hconf (c.name ++ "." ++ key)
  refine ⟨name, hname, ?_⟩
  rw [h.property?_eq, hkey, Option.map_some, propertyOf]
  simp only
  rw [hproperty]

/-- Fields that all give a property can be configured. -/
theorem configure_total {order : DependencyOrder} {c : Configuration}
    {fields : List (String × Node × Nat)}
    (h : ∀ e ∈ fields, ∃ value, property order (c.name ++ "." ++ e.1) e.2.1 e.2.2 = .ok value) :
    ∃ d, configure order c fields = .ok d := by
  induction fields generalizing c with
  | nil => exact ⟨c, rfl⟩
  | cons e rest ih =>
      rw [List.forall_mem_cons] at h
      rcases h.1 with ⟨value, hvalue⟩
      rcases e with ⟨key, n, first⟩
      rw [configure]
      simp only at hvalue
      rw [hvalue]
      exact @ih (c.set key value) h.2

/-- An object whose fields can be extracted gives a configuration or none. -/
theorem configuration_total {root : Record} {p : Nat} {o : Occurrence}
    (ho : (ofRecord root).get? p = some o) (h : o.record.Extractable) :
    ∃ found, configuration (ofRecord root) p o = .ok found := by
  simp only [configuration, h.named, Bool.false_eq_true, if_false]
  cases hconf : o.record.configurable with
  | false => exact ⟨none, rfl⟩
  | true =>
      have hfields : ∀ e ∈ numberFields o.first o.record.configured, ∃ value,
          property (ofRecord root) (componentName o.record.className p ++ "." ++ e.1) e.2.1 e.2.2 =
            .ok value := by
        intro e he
        rcases e with ⟨key, n, first⟩
        rcases h.plain hconf _ (mem_of_mem_numberFields he) with ⟨value, rfl⟩ | ⟨r, rfl, hr⟩
        · exact ⟨_, rfl⟩
        · rcases property_node ho he hr _ with ⟨-, name, -, hproperty⟩
          exact ⟨_, hproperty⟩
      obtain ⟨d, hd⟩ := @configure_total (ofRecord root)
        ⟨componentName o.record.className p, o.record.className, []⟩ _ hfields
      rw [if_pos rfl, hd]
      exact ⟨_, rfl⟩

/-- Rows that all can be configured give configurations. -/
theorem configurations_total {order : DependencyOrder} {rows : List (Nat × Occurrence)}
    (h : ∀ row ∈ rows, ∃ found, configuration order row.1 row.2 = .ok found) :
    ∃ configs, configurations order rows = .ok configs := by
  induction rows with
  | nil => exact ⟨[], rfl⟩
  | cons row rest ih =>
      rw [List.forall_mem_cons] at h
      rcases h.1 with ⟨found, hfound⟩
      rcases ih h.2 with ⟨more, hmore⟩
      rw [configurations, hfound, hmore]
      exact ⟨_, rfl⟩

end Extraction

/-- A tree of objects that can be extracted has configurations. -/
theorem Record.extract_total {root : Record}
    (h : ∀ o ∈ root.occurrences, o.record.Extractable) : ∃ configs, root.extract = .ok configs := by
  apply Extraction.configurations_total
  intro row hrow
  have hget := DependencyOrder.get?_of_mem_rows hrow
  exact Extraction.configuration_total hget (h _ (DependencyOrder.get?_eq_some_iff.1 hget).1)

/-! ## Objects of data -/

namespace Record

/-- Whether an object belongs to the data of a model: it is a dataset or a source, and no trainer is
made from it. -/
structure IsData (r : Record) : Prop where
  kind : r.kind = .dataset ∨ r.kind = .dataSource ∨ r.kind = .splitDataSource
  extractable : r.Extractable
  notTrainer : r.configurable = true → r.className ≠ Trainer.className

/-- An object stands before what it holds. -/
theorem occurrences_node (r : Record) (first : Nat) :
    r.node.occurrences first = ⟨r, first + 1⟩ ::
      (Node.occurrencesFields (first + 1) r.configured ++
        Node.occurrencesFields (first + 1 + Node.objectsFields r.configured) r.recorded) := rfl

/-- The objects of a record around another one. -/
theorem occurrences_around (kind : RecordKind) (className key : String) (inner : Record)
    {rest : Fields} (hrest : ∀ first, Node.occurrencesFields first rest = []) (first : Nat) :
    (observed kind className ((key, inner.node) :: rest)).node.occurrences first =
      ⟨observed kind className ((key, inner.node) :: rest), first + 1⟩ ::
        inner.node.occurrences (first + 1) := by
  rw [occurrences_node]
  simp only [observed, Node.occurrencesFields, Node.objectsFields, Nat.add_zero, List.nil_append,
    hrest, List.append_nil]

/-- A dataset or a source that is observed belongs to the data. -/
theorem isData_observed {kind : RecordKind} {className : String} {recorded : Fields}
    (hkind : kind = .dataset ∨ kind = .dataSource ∨ kind = .splitDataSource)
    (hnamed : (Text.trim className.toList).isEmpty = false) :
    (observed kind className recorded).IsData where
  kind := hkind
  extractable := ⟨hnamed, by simp [observed]⟩
  notTrainer := by simp [observed]

theorem isData_file {format : DataFormat} {path : String} {recorded : Fields} :
    (rebuildable .dataSource (DataSource.fileClass format) [("path", .text path)]
      recorded).IsData where
  kind := .inr (.inl rfl)
  extractable := by
    have hnamed : (Text.trim (DataSource.fileClass format).toList).isEmpty = false := by
      cases format <;> decide
    refine ⟨hnamed, fun _ e he => ?_⟩
    rw [rebuildable, List.mem_singleton] at he
    rw [he]
    exact .inl ⟨_, rfl⟩
  notTrainer := by
    have hclass : DataSource.fileClass format ≠ Trainer.className := by
      cases format <;> decide
    exact fun _ => hclass

end Record

/-- The objects of a source that was loaded belong to data. -/
theorem SourcePlan.isData_of_load {directory : Directory} {plan : SourcePlan} {source : DataSource}
    (h : plan.load directory = .ok source) :
    ∀ first, ∀ o ∈ source.record.node.occurrences first, o.record.IsData := by
  induction plan generalizing source with
  | file format path =>
      intro first o ho
      rw [DataSource.record_of_ofFile h] at ho
      have hone : o = ⟨.rebuildable .dataSource (DataSource.fileClass format)
          [("path", .text path.lossy)] [("num-examples", DataSource.recordedSize source.samples)],
          first + 1⟩ := List.mem_singleton.1 ho
      rw [hone]
      exact Record.isData_file
  | memory names samples description =>
      intro first o ho
      rw [← Except.ok.inj h] at ho
      have hone : o = ⟨(DataSource.inMemory names samples description).record, first + 1⟩ :=
        List.mem_singleton.1 ho
      rw [hone]
      exact Record.isData_observed (.inr (.inl rfl)) (by decide)
  | split inner proportion seed part ih =>
      intro first o ho
      rcases load_split h with ⟨found, hload, hsplit⟩
      rw [DataSource.record_of_split hsplit, Record.occurrences_around _ _ _ _ fun _ => rfl] at ho
      rcases List.mem_cons.1 ho with rfl | ho
      · exact Record.isData_observed (.inr (.inr rfl)) (by decide)
      · exact ih hload _ o ho

/-- The objects of an observed dataset belong to data if those of its source do. -/
theorem Dataset.isData_observe {className : String} {names : List String}
    {samples : List (Sample Float)} {source : Record} {observed : Fields}
    (hnamed : (Text.trim className.toList).isEmpty = false)
    (hobserved : ∀ first, Node.occurrencesFields first observed = [])
    (hsource : ∀ first, ∀ o ∈ source.node.occurrences first, o.record.IsData) :
    ∀ first, ∀ o ∈ (observe className names samples source observed).record.node.occurrences first,
      o.record.IsData := by
  intro first o ho
  have hrest : ∀ first, Node.occurrencesFields first (observed ++
      [("num-examples", DataSource.recordedSize samples),
        ("num-features", .long (Int64.ofNat (FeatureMap.observe names samples).size))]) = [] := by
    intro first
    rw [Node.occurrencesFields_append, hobserved]
    rfl
  have hrecord : (observe className names samples source observed).record =
      .observed .dataset className (("source-provenance", source.node) :: (observed ++
        [("num-examples", DataSource.recordedSize samples),
          ("num-features", .long (Int64.ofNat (FeatureMap.observe names samples).size))])) := rfl
  rw [hrecord, Record.occurrences_around _ _ _ _ hrest] at ho
  rcases List.mem_cons.1 ho with rfl | ho
  · exact Record.isData_observed (.inl rfl) hnamed
  · exact hsource _ o ho

/-- The objects of a dataset that was loaded belong to data. -/
theorem DatasetPlan.isData_of_load {directory : Directory} {plan : DatasetPlan} {d : Dataset}
    (h : plan.load directory = .ok d) :
    ∀ first, ∀ o ∈ d.record.node.occurrences first, o.record.IsData := by
  induction plan generalizing d with
  | whole plan =>
      rcases load_whole h with ⟨source, hload, hd⟩
      rw [Dataset.eq_of_ofSource hd]
      exact Dataset.isData_observe (by decide) (fun _ => rfl) (SourcePlan.isData_of_load hload)
  | atLeast threshold inner ih =>
      rcases load_atLeast h with ⟨e, hload, hd⟩
      rw [Dataset.eq_of_atLeast hd]
      exact Dataset.isData_observe (by decide) (fun _ => rfl) (ih hload)

/-! ## The record of a model -/

namespace ModelRecord

/-- The record of a model that was trained on a dataset. -/
def ofTraining (d : Dataset) (t : Trainer) (occasion : Occasion) : ModelRecord :=
  trained Model.className d.record t.record occasion

/-- The trainer in the record of a model. -/
def trainerIn (d : Dataset) (t : Trainer) : Occurrence :=
  ⟨t.record, d.record.node.objects + 1⟩

/-- The kernel in the record of a model. -/
def kernelIn (d : Dataset) (t : Trainer) : Occurrence :=
  ⟨t.kernel.record, d.record.node.objects + 2⟩

theorem kind_kernel (k : Kernel) : k.record.kind = .component := by
  cases k <;> rfl

theorem configurable_kernel (k : Kernel) : k.record.configurable = true := by
  cases k <;> rfl

/-- No kernel has the class of the trainer. -/
theorem className_kernel_ne (k : Kernel) : k.record.className ≠ Trainer.className := by
  cases k <;> simp [Kernel.record, Record.rebuildable, Trainer.className]

theorem occurrences_kernel (k : Kernel) (first : Nat) :
    k.record.node.occurrences first = [⟨k.record, first + 1⟩] := by
  cases k <;> rfl

/-- A model holds its data, then its trainer and the kernel of that. -/
theorem occurrences_ofTraining (d : Dataset) (t : Trainer) (occasion : Occasion) :
    (ofTraining d t occasion).record.occurrences =
      d.record.node.occurrences 0 ++ [trainerIn d t, kernelIn d t] := by
  have hkernel := occurrences_kernel t.kernel (d.record.node.objects + 1)
  have htrainer : t.record.node.occurrences d.record.node.objects =
      [trainerIn d t, kernelIn d t] := by
    rw [Record.occurrences_node]
    simp [Trainer.record, Trainer.recordAt, Record.rebuildable, Node.occurrencesFields, hkernel,
      Node.double, Node.long, Node.occurrences, Node.objects, trainerIn, kernelIn]
  rw [Record.occurrences]
  simp [ofTraining, trained, Record.observed, Record.fields, Node.occurrencesFields, htrainer,
    Node.text, Node.occurrences]

/-- The objects of the record of a trained model are those of the data, the trainer and its
kernel. -/
theorem mem_occurrences_ofTraining {d : Dataset} {t : Trainer} {occasion : Occasion}
    {o : Occurrence} :
    o ∈ (ofTraining d t occasion).record.occurrences ↔
      o ∈ d.record.node.occurrences 0 ∨ o = trainerIn d t ∨ o = kernelIn d t := by
  rw [occurrences_ofTraining, List.mem_append, List.mem_cons, List.mem_singleton]

theorem extractable_kernel (k : Kernel) : k.record.Extractable where
  named := by
    have hnamed : ∀ name ∈ ["LinearKernel", "RBFKernel", "PolynomialKernel"],
        (Text.trim name.toList).isEmpty = false := by decide
    apply hnamed
    cases k <;> simp [Kernel.record, Record.rebuildable]
  plain := by
    intro _ e he
    cases k with
    | linear => simp [Kernel.record, Record.rebuildable] at he
    | rbf gamma =>
        simp only [Kernel.record, Record.rebuildable, List.mem_singleton] at he
        rw [he]
        exact .inl ⟨_, rfl⟩
    | polynomial degree gamma coef0 =>
        simp only [Kernel.record, Record.rebuildable, List.mem_cons, List.not_mem_nil,
          or_false] at he
        rcases he with rfl | rfl | rfl <;> exact .inl ⟨_, rfl⟩

theorem extractable_trainer (t : Trainer) : t.record.Extractable where
  named := (by decide : (Text.trim Trainer.className.toList).isEmpty = false)
  plain := by
    intro _ e he
    simp only [Trainer.record, Trainer.recordAt, Record.rebuildable, List.mem_cons,
      List.not_mem_nil, or_false] at he
    rcases he with rfl | rfl | rfl | rfl | rfl | rfl | rfl
    case inr.inr.inr.inr.inr.inr => exact .inr ⟨t.kernel.record, rfl, configurable_kernel t.kernel⟩
    all_goals exact .inl ⟨_, rfl⟩

/-- The record of a trained model has configurations. -/
theorem extract_ofTraining {directory : Directory} {plan : DatasetPlan} {d : Dataset}
    (h : plan.load directory = .ok d) (t : Trainer) (occasion : Occasion) :
    ∃ configs, (ofTraining d t occasion).record.extract = .ok configs := by
  apply Record.extract_total
  intro o ho
  rcases mem_occurrences_ofTraining.1 ho with ho | rfl | rfl
  · exact (DatasetPlan.isData_of_load h 0 o ho).extractable
  · exact extractable_trainer t
  · exact extractable_kernel t.kernel

/-- Only one object in the record of a trained model is a trainer. -/
theorem eq_trainerIn_of_kind {directory : Directory} {plan : DatasetPlan} {d : Dataset}
    (h : plan.load directory = .ok d) {t : Trainer} {occasion : Occasion} {o : Occurrence}
    (ho : o ∈ (ofTraining d t occasion).record.occurrences) (hkind : o.record.kind = .trainer) :
    o = trainerIn d t := by
  rcases mem_occurrences_ofTraining.1 ho with ho | ho | rfl
  · have hdata := (DatasetPlan.isData_of_load h 0 o ho).kind
    simp [hkind] at hdata
  · exact ho
  · exact absurd ((kind_kernel t.kernel).symm.trans hkind) (by decide)

/-- Only one configurable object in the record of a trained model has the class of trainers. -/
theorem eq_trainerIn_of_className {directory : Directory} {plan : DatasetPlan} {d : Dataset}
    (h : plan.load directory = .ok d) {t : Trainer} {occasion : Occasion} {o : Occurrence}
    (ho : o ∈ (ofTraining d t occasion).record.occurrences)
    (hconf : o.record.configurable = true) (hclass : o.record.className = Trainer.className) :
    o = trainerIn d t := by
  rcases mem_occurrences_ofTraining.1 ho with ho | ho | rfl
  · exact absurd hclass ((DatasetPlan.isData_of_load h 0 o ho).notTrainer hconf)
  · exact ho
  · exact absurd hclass (className_kernel_ne t.kernel)

/-- The dataset of a trained model is found in its record. -/
theorem dataset_ofTraining {directory : Directory} {plan : DatasetPlan} {d : Dataset}
    (h : plan.load directory = .ok d) (t : Trainer) (occasion : Occasion) :
    (ofTraining d t occasion).dataset = .ok ⟨d.record, 1⟩ := by
  have hinner : (Occurrence.root (ofTraining d t occasion).record).inner? "dataset" =
      some ⟨d.record, 1⟩ := Occurrence.inner?_of_head rfl
  rw [dataset, required, hinner]
  simp only
  rw [if_pos (DatasetPlan.kind_of_load h)]

/-- The trainer of a trained model is found in its record. -/
theorem trainer_ofTraining (d : Dataset) (t : Trainer) (occasion : Occasion) :
    (ofTraining d t occasion).trainer = .ok (trainerIn d t) := by
  have hinner : (Occurrence.root (ofTraining d t occasion).record).inner? "trainer" =
      some (trainerIn d t) := by
    simp [Occurrence.inner?, Occurrence.root, ofTraining, trained, Record.observed, Record.fields,
      Occurrence.locate, trainerIn]
  rw [trainer, required, hinner]
  rfl

end ModelRecord
end Retrace
