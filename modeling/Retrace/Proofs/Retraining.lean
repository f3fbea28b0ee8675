import Retrace.Proofs.Difference
import Retrace.Proofs.TrainerRecovery
import Retrace.Record.Report

/-!
# Training again

Training depends on the trainer, the data and nothing else; the occasion is only recorded.  So a
model that was trained on data from a file is trained again from its record, as long as the recorded
path leads to the data: the trainer and the dataset are recovered as they were used, and the model
that comes out is the recorded one but for the time in its record.

Main results:

- Theorem `train_occasion`: on another occasion the same model is trained.
- Theorem `compareTrees_ofTraining`: records of two times differ at most in the time.
- Theorem `fromModel_of_train`: what was trained on a file is reproduced and validated, if the path
  of the file is a text.
- Theorem `fromModel_not_of_train`: otherwise it need not be.
-/

namespace Retrace

/-! ## Occasions -/

/-- On another occasion the same model is trained, and only its record tells. -/
theorem Trainer.train_occasion {t after : Trainer} {occasion : Occasion} {d : Dataset} {m : Model}
    (h : t.train occasion d = (.ok m, after)) :
    t.settings.fault? = none ∧ m.record = .ofTraining d t occasion ∧
      ∀ other, t.train other d = (.ok { m with record := .ofTraining d t other }, after) := by
  cases hfault : t.settings.fault? with
  | some fault =>
      rw [train_of_invalid hfault] at h
      exact absurd (Prod.mk.inj h).1 (by simp)
  | none =>
      have hvalid : t.validate = .ok () := by rw [validate, hfault]
      rw [train, hvalid, Prod.mk.injEq] at h
      rcases h with ⟨hlearn, hafter⟩
      rw [learn] at hlearn
      cases hsolve : Search.solve t.kernel t.settings d.samples (t.drawsAt t.count) with
      | error e => simp [hsolve] at hlearn
      | ok solution =>
          simp only [hsolve, Except.ok.injEq] at hlearn
          subst hlearn
          refine ⟨rfl, rfl, fun other => ?_⟩
          rw [train, hvalid, learn, hsolve]
          exact Prod.ext rfl hafter

/-- A training leaves the trainer as it is after it. -/
theorem Workshop.run_train {occasion : Occasion} {handle : Nat} {d : Dataset} {w : Workshop}
    {t after : Trainer} {m : Model} (hw : w.trainer? handle = some t)
    (h : t.train occasion d = (.ok m, after)) :
    (train occasion handle d).run w =
      (.ok m, { w with trainers := w.trainers.set handle after }) := by
  rw [train, run_get_bind, hw]
  simp only [h]
  rfl

/-! ## Comparing -/

/-- Features do not differ from themselves. -/
theorem FeatureMap.firstDifference_self (index : Nat) (features : List FeatureInfo) :
    firstDifference index features features = none := by
  induction features generalizing index with
  | nil => rfl
  | cons f rest ih => rw [firstDifference, if_pos rfl, ih]

/-- Models with the same features and labels do not disagree. -/
theorem Model.disagreement?_eq_none {m n : Model} (hfeatures : m.features = n.features)
    (hlabels : m.labels = n.labels) : m.disagreement? n = none := by
  simp [disagreement?, hfeatures, hlabels, FeatureMap.firstDifference_self]

/-- The records of one training at two times differ at most in the time. -/
theorem Difference.compareTrees_ofTraining (d : Dataset) (t : Trainer) (occasion : Occasion)
    (time : Instant) :
    ∃ report, compareTrees (ModelRecord.ofTraining d t occasion).record.node
        (ModelRecord.ofTraining d t { occasion with time := time }).record.node = .ok report ∧
      ∀ e ∈ report, e.1 = "trained-at" := by
  -- the two times are texts and can be compared; every other key has the same node on both sides
  refine compareTrees_under rfl rfl ⟨_, rfl⟩ fun other hother => ?_
  have hsame : Keyed.lookupLast other (ModelRecord.ofTraining d t occasion).record.children =
      Keyed.lookupLast other
        (ModelRecord.ofTraining d t { occasion with time := time }).record.children := by
    simp [ModelRecord.ofTraining, ModelRecord.trained, Record.observed, Record.children,
      Record.fields, Keyed.lookupLast_cons, hother.symm]
  rw [not_differs_iff]
  exact congrArg (Option.map Node.view) hsame

/-! ## Reproducing -/

namespace Reproduction

open ModelRecord (ofTraining)

variable {directory : Directory} {plan : DatasetPlan} {d : Dataset} {t after : Trainer}
  {occasion : Occasion} {m : Model}

section Recorded

variable (hfiles : directory.Addressable) (hload : plan.load directory = .ok d)
  (hplan : plan.source.overFile = true) (hkernel : t.kernel.Checked) (ht : t.Recordable)
  (hdoubles : ∀ x ∈ t.doubles, Float.ReadsBack x) (hvalid : t.settings.fault? = none)
  {configs : List Configuration} (h : (ofTraining d t occasion).record.extract = .ok configs)
  (reference : Option Model) (other : Occasion)
include hfiles hload hplan hkernel ht hdoubles hvalid h

/-- From the record of a trained model its trainer is trained again, on the data at the recorded
path. -/
theorem run_fromRecord {e : Dataset} (hagain : plan.asRecorded.load directory = .ok e) {n : Model}
    {used : Trainer} (htrain : t.train other e = (.ok n, used)) :
    ∃ w, (fromRecord directory other).run
        (prepared .standard (ofTraining d t occasion) reference configs) =
      (.ok n, ⟨ofTraining d t occasion, reference, w, .retrained⟩) := by
  obtain ⟨made, htrainer, htrainers, hstocked⟩ :=
    run_recoverTrainer hload hkernel ht hdoubles hvalid h reference
  obtain ⟨w, hdataset, hkept⟩ := (run_recoverDataset_asRecorded hfiles hplan hload hstocked
    (ModelRecord.dataset_ofTraining hload t occasion) rfl).1 e hagain
  have hhandle : w.trainer? 0 = some t := by
    rw [Workshop.trainer?, hkept, htrainers]
    rfl
  rw [fromRecord, run_bind_ok htrainer, run_bind_ok hdataset,
    run_bind_ok (run_inWorkshop_ok (Workshop.run_train hhandle htrain))]
  exact ⟨_, rfl⟩

/-- Where there are no data at the recorded path, nothing is trained. -/
theorem run_fromRecord_error {fault : Error}
    (hnone : plan.asRecorded.load directory = .error fault) :
    ∃ e w, (fromRecord directory other).run
        (prepared .standard (ofTraining d t occasion) reference configs) =
      (.error e, ⟨ofTraining d t occasion, reference, w, .trainerRecovered⟩) := by
  obtain ⟨made, htrainer, -, hstocked⟩ :=
    run_recoverTrainer hload hkernel ht hdoubles hvalid h reference
  obtain ⟨e, w, hdataset⟩ := (run_recoverDataset_asRecorded hfiles hplan hload hstocked
    (ModelRecord.dataset_ofTraining hload t occasion) rfl).2 fault hnone
  rw [fromRecord, run_bind_ok htrainer, run_bind_error hdataset]
  exact ⟨e, w, rfl⟩

end Recorded

/-- A model that was trained on data from a file, by a trainer whose settings can be recorded, can
be prepared to be reproduced.  Where the path of the file is a text the model is reproduced and
validated: what comes out is the model but for the time in its record, and the two records differ in
no other key.  Where no data are at the recorded path, which may be so if the path of the file is no
text, the reproduction fails. -/
theorem fromModel_of_train (hfiles : directory.Addressable) (hload : plan.load directory = .ok d)
    (hplan : plan.source.overFile = true) (hkernel : t.kernel.Checked) (ht : t.Recordable)
    (hdoubles : ∀ x ∈ t.doubles, Float.ReadsBack x) (htrain : t.train occasion d = (.ok m, after))
    (time : Instant) :
    m.record = .trained Model.className d.record t.record occasion ∧
    ∃ r, ofModel m .standard = .ok r ∧
    (plan.source.NamedByText →
      ∃ n s, (fromModel directory { occasion with time := time }).run r = (.ok n, s) ∧
        s.stage = .validated ∧
        n = { m with
          record := .trained Model.className d.record t.record { occasion with time := time } } ∧
        ∃ report, Difference.compareTrees m.record.record.node n.record.record.node = .ok report ∧
          s.compare n = .ok (Difference.renderReport .standard report) ∧
          ∀ e ∈ report, e.1 = "trained-at") ∧
    ∀ fault, plan.asRecorded.load directory = .error fault →
      ∃ e s, (fromModel directory { occasion with time := time }).run r = (.error e, s) ∧
        s.stage = .trainerRecovered := by
  rcases Trainer.train_occasion htrain with ⟨hvalid, hrecord, hagain⟩
  rcases ModelRecord.extract_ofTraining hload t occasion with ⟨configs, hextract⟩
  have hprepared : ofModel m .standard =
      .ok (prepared .standard (ofTraining d t occasion) (some m) configs) := by
    rw [ofModel, hrecord, ofRecord_of_extract hextract]
    rfl
  have hreference : (prepared .standard (ofTraining d t occasion) (some m) configs).reference =
      some m := rfl
  refine ⟨hrecord, _, hprepared, fun hpath => ?_, fun fault hnone => ?_⟩
  · rcases Difference.compareTrees_ofTraining d t occasion time with ⟨report, hreport, hkeys⟩
    have hplace : plan.asRecorded.load directory = .ok d := by
      rw [DatasetPlan.asRecorded_eq_iff.2 hpath]
      exact hload
    -- trainer and dataset are recovered as they were used, so training does what it did
    obtain ⟨w, hrun⟩ := run_fromRecord hfiles hload hplan hkernel ht hdoubles hvalid hextract
      (some m) { occasion with time := time } hplace (hagain { occasion with time := time })
    refine ⟨{ m with record := ofTraining d t { occasion with time := time } },
      ⟨ofTraining d t occasion, some m, w, .validated⟩, ?_, rfl, rfl, report, ?_, ?_, hkeys⟩
    · have hagree := @Model.disagreement?_eq_none m
        { m with record := ofTraining d t { occasion with time := time } } rfl rfl
      rw [fromModel, run_get_bind, hreference]
      simp only
      rw [run_bind_ok hrun, hagree]
      rfl
    · rw [hrecord]
      exact hreport
    · rw [compare, Difference.compareModels]
      simp only
      rw [hreport]
      rfl
  · obtain ⟨e, w, hrun⟩ := run_fromRecord_error hfiles hload hplan hkernel ht hdoubles hvalid
      hextract (some m) { occasion with time := time } hnone
    rw [fromModel, run_get_bind, hreference]
    simp only
    rw [run_bind_error hrun]
    exact ⟨e, _, rfl, rfl⟩

/-- A trainer that was used twice and is content with what it starts from. -/
def lenient : Trainer where
  settings := ⟨1, 2, 3, 2, 100⟩
  kernel := .rbf 0.5
  seed := 7
  count := 2

/-- The settings of the trainer can be recorded. -/
theorem recordable_lenient : lenient.Recordable := by
  constructor <;> decide

theorem readsBack_lenient : ∀ x ∈ lenient.doubles, Float.ReadsBack x := by
  intro x hx
  have hvalues : x = 1 ∨ x = 2 ∨ x = 0.5 := by
    simpa [Trainer.doubles, lenient, Kernel.doubles] using hx
  rcases hvalues with rfl | rfl | rfl <;> rfl

/-- The third use of a trainer, on points that were split twice and filtered twice, is
reproduced. -/
theorem fromModel_of_train_axes :
    ∃ d m after r n s report, axesPlan.load axes = .ok d ∧
      lenient.train ⟨⟨0, 0⟩, "linux", "x86_64"⟩ d = (.ok m, after) ∧
      ofModel m .standard = .ok r ∧
      (fromModel axes ⟨⟨60, 0⟩, "linux", "x86_64"⟩).run r = (.ok n, s) ∧
      s.stage = .validated ∧ n = { m with record := n.record } ∧
      s.compare n = .ok (Difference.renderReport .standard report) ∧
      ∀ e ∈ report, e.1 = "trained-at" := by
  have htrains : (match axesPlan.load axes with
      | .ok d => (lenient.train ⟨⟨0, 0⟩, "linux", "x86_64"⟩ d).1.isOk
      | .error _ => false) = true := by decide +kernel
  cases hload : axesPlan.load axes with
  | error e => simp [hload] at htrains
  | ok d =>
      simp only [hload] at htrains
      cases htrain : lenient.train ⟨⟨0, 0⟩, "linux", "x86_64"⟩ d with
      | mk result after =>
          cases result with
          | error e => simp [htrain, Except.isOk, Except.toBool] at htrains
          | ok m =>
              have hkernel : lenient.kernel.Checked := .inr (.inl ⟨0.5, rfl⟩)
              obtain ⟨-, r, hr, hreproduced, -⟩ := fromModel_of_train addressable_axes hload rfl
                hkernel recordable_lenient readsBack_lenient htrain ⟨60, 0⟩
              obtain ⟨n, s, hrun, hstage, hn, report, -, hcompare, hkeys⟩ :=
                hreproduced (by decide +kernel)
              exact ⟨d, m, after, r, n, s, report, rfl, htrain, hr, hrun, hstage, by rw [hn],
                hcompare, hkeys⟩

/-- A model need not be reproduced: on the points in the file whose name is no text a model is
trained, and from its record no dataset is recovered. -/
theorem fromModel_not_of_train :
    ¬∀ (directory : Directory) (plan : DatasetPlan) (d : Dataset) (t after : Trainer)
      (occasion : Occasion) (m : Model) (r : Reproduction), directory.Addressable →
        plan.load directory = .ok d → plan.source.overFile = true → t.kernel.Checked →
          t.Recordable → (∀ x ∈ t.doubles, Float.ReadsBack x) →
            t.train occasion d = (.ok m, after) → ofModel m .standard = .ok r →
              ((fromModel directory occasion).run r).2.stage = .validated := by
  intro hclaim
  have hruns : (((planAt .unreadable).load strayAxes).toOption.any fun d =>
      (lenient.train ⟨⟨0, 0⟩, "linux", "x86_64"⟩ d).1.toOption.any fun m =>
        (ofModel m .standard).toOption.any fun r =>
          ((fromModel strayAxes ⟨⟨0, 0⟩, "linux", "x86_64"⟩).run r).2.stage =
            .trainerRecovered) = true := by decide +kernel
  simp only [Option.any_eq_true, toOption_eq_some_iff, decide_eq_true_eq] at hruns
  obtain ⟨d, hload, m, hm, r, hr, hstage⟩ := hruns
  rw [hclaim strayAxes (planAt .unreadable) d lenient _ _ m r
    (Folder.addressable_directory (by decide +kernel)) hload rfl (.inr (.inl ⟨0.5, rfl⟩))
    recordable_lenient readsBack_lenient (Prod.ext hm rfl) hr] at hstage
  simp at hstage

end Reproduction
end Retrace
