import Retrace.Proofs.RelocatedRecovery
import Retrace.Proofs.RepeatedRecovery

/-!
# Relocation is rewriting the record

Pointing the data sources of a reproduction to a path comes to the same as setting the path of every
data source in the record and starting over.  The configurations are the ones that would be
extracted from the rewritten record; what was made before is forgotten, unless there is no data
source, and then nothing that was made read a file.  From there on each step is the one over the
rewritten record.

Main results:

- Theorem `steady_relocated`: after the relocation a reproduction is as one over the rewritten
  record may be.
- Theorem `run_lookup_relocated_of_no_source`: without data sources what was made is still served.
- Theorem `relocate_eq_rewrite`: what is recovered and trained is what a new reproduction over the
  rewritten record recovers and trains.
-/

namespace Retrace

/-! ## Workshops without data sources -/

/-- Where no class makes data sources, files do not matter. -/
theorem described_of_no_source {configs : List Configuration}
    (hnone : ∀ c ∈ configs, Catalog.standard.kindOf? c.className ≠ some .dataSource)
    (directory other : Directory) (name : String) :
    described directory configs name = described other configs name := by
  rw [described, described]
  cases hfound : configs.find? (fun c => c.name == name) with
  | none => rfl
  | some c =>
      have hc := hnone c (List.mem_of_find?_eq_some hfound)
      simp only [Option.bind_some]
      cases hentry : Catalog.standard.entry? c.className with
      | none => rfl
      | some entry =>
          rcases Catalog.eq_of_entry?_standard hentry with ⟨-, rfl⟩ | ⟨-, rfl⟩ | ⟨format, -, rfl⟩
          · rfl
          · rfl
          · exact absurd (by rw [Catalog.kindOf?, hentry]; rfl) hc

namespace Workshop

variable {directory earlier : Directory} {w : Workshop}

/-- The number of configurations whose class makes data sources. -/
def sourceCount (w : Workshop) : Nat :=
  w.configurations.countP fun c => w.catalog.kindOf? c.className == some .dataSource

/-- Each configuration of a data source has a name. -/
theorem length_namesOfKind (w : Workshop) :
    (w.namesOfKind .dataSource).length = w.sourceCount := by
  rw [namesOfKind, namesWhere, List.length_map, sourceCount, List.countP_eq_length_filter]

/-- Without data sources no class makes one. -/
theorem Served.kindOf?_ne (hw : Served earlier w) (hnone : w.sourceCount = 0) :
    ∀ c ∈ w.configurations, Catalog.standard.kindOf? c.className ≠ some .dataSource := by
  intro c hc hkind
  have hno := List.countP_eq_zero.1 hnone c hc
  rw [hw.faithful.catalog, hkind] at hno
  exact hno rfl

/-- Without data sources a workshop stays as it must be when the files change. -/
theorem Served.of_no_source (hw : Served earlier w) (hnone : w.sourceCount = 0)
    (directory : Directory) : Served directory w := by
  have hconfigs := hw.kindOf?_ne hnone
  refine ⟨⟨hw.faithful.catalog, ?_⟩, hw.idle, hw.names⟩
  intro name c hc
  obtain ⟨product, hproduct, hsettings⟩ := hw.faithful.serves hc
  exact ⟨product, (described_of_no_source hconfigs directory earlier name).trans hproduct,
    hsettings⟩

/-- Without configurations of data sources none was made. -/
theorem Served.lookup_ne_source (hw : Served earlier w) (hnone : w.sourceCount = 0)
    (name : String) (handle : Nat) (source : DataSource) :
    Keyed.lookup name w.instances ≠ some (.dataSource handle source) := by
  intro hc
  obtain ⟨product, hproduct, hsettings⟩ := hw.faithful.serves hc
  obtain ⟨c, entry, hfound, hentry, houtcome⟩ := described_eq_some_iff.1 hproduct
  have hkind := (Catalog.plain_of_entry?_standard hentry).kind _ _ _ _ houtcome
  rw [settings?, Option.some.injEq] at hsettings
  have hsource : product.kind = .dataSource := by
    cases product with
    | dataSource other => rfl
    | _ => simp [Product.unused] at hsettings
  apply hw.kindOf?_ne hnone c (List.mem_of_find?_eq_some hfound)
  rw [Catalog.kindOf?, hentry, Option.map_some, ← hkind, hsource]

end Workshop

namespace Reproduction

open DependencyOrder (rowName)

variable {directory earlier : Directory} {m : ModelRecord} {r s : Reproduction}
  {configs : List Configuration}

/-! ## After the relocation -/

/-- A reproduction whose data sources were pointed to a path. -/
def relocated (path : String) (r : Reproduction) : Reproduction :=
  { r with workshop := { r.workshop with
      configurations := relocatedConfigs .standard path r.workshop.configurations
      instances := if r.workshop.sourceCount = 0 then r.workshop.instances else [] } }

/-- Restoring counts and setting paths may be done in either order. -/
theorem relocatedConfigs_restoredConfigs (path : String) (rows : List (Nat × Occurrence))
    (configs : List Configuration) :
    relocatedConfigs .standard path (restoredConfigs rows configs) =
      restoredConfigs (rows.map fun row => (row.1, row.2.relocate path))
        (relocatedConfigs .standard path configs) := by
  have htext : ∀ name, restoredText (rows.map fun row => (row.1, row.2.relocate path)) name =
      restoredText rows name := by
    intro name
    induction rows with
    | nil => rfl
    | cons row rest ih =>
        have hname : rowName (row.1, row.2.relocate path) = rowName row := rfl
        rw [List.map_cons, restoredText, restoredText, ih, hname, countText?_relocate]
  rw [relocatedConfigs, relocatedConfigs, restoredConfigs, restoredConfigs, List.map_map,
    List.map_map]
  apply List.map_congr_left
  intro c _
  simp only [Function.comp_apply, className_withCount, htext]
  split
  · cases hcount : restoredText rows c.name with
    | none => rw [Configuration.name_set, hcount]; rfl
    | some text =>
        rw [Configuration.name_set, hcount]
        exact c.set_comm (by decide) _ _
  · rfl

/-- The rows whose counts can be restored do not depend on paths. -/
theorem restorable_relocate (path : String) (rows : List (Nat × Occurrence)) :
    restorable (rows.map fun row => (row.1, row.2.relocate path)) =
      (restorable rows).map fun row => (row.1, row.2.relocate path) := by
  rw [restorable, restorable, List.takeWhile_map]
  congr 2
  funext row
  rw [Function.comp_apply, countFault?_relocate]

/-- Without data sources there is nothing to point to a path, and nothing is forgotten. -/
theorem relocated_of_no_source (hs : Steady earlier m none configs s)
    (hnone : s.workshop.sourceCount = 0) (path : String) : relocated path s = s := by
  have hkept : relocatedConfigs .standard path s.workshop.configurations =
      s.workshop.configurations := by
    rw [relocatedConfigs, List.map_congr_left (g := id), List.map_id]
    intro c hc
    rw [if_neg (hs.served.kindOf?_ne hnone c hc), id]
  rw [relocated, hkept, if_pos hnone]

/-- After the relocation a reproduction is as one over the rewritten record may be. -/
theorem steady_relocated (hplain : m.record.pathsPlain = true)
    (hs : Steady earlier m none configs s) (path : String) (directory : Directory) :
    Steady directory (m.relocate path) none (relocatedConfigs .standard path configs)
      (withRecord (m.relocate path) (relocated path s)) := by
  refine ⟨rfl, hs.reference, ?_, ?_⟩
  · by_cases hnone : s.workshop.sourceCount = 0
    · -- nothing is forgotten, but nothing that was made read a file
      rw [relocated_of_no_source hs hnone]
      exact hs.served.of_no_source hnone directory
    · refine ⟨⟨hs.served.faithful.catalog, ?_⟩, hs.served.idle, ?_⟩
      · intro name c hc
        rw [withRecord, relocated, if_neg hnone] at hc
        simp at hc
      · have hnames : (withRecord (m.relocate path)
            (relocated path s)).workshop.configurations.map Configuration.name =
              s.workshop.configurations.map Configuration.name :=
          map_relocatedConfigs (fun _ _ _ => rfl) _ _ _
        rw [hnames]
        exact hs.served.names
  · have hrows : (DependencyOrder.ofRecord (m.relocate path).record).rows =
        (DependencyOrder.ofRecord m.record).rows.map fun row => (row.1, row.2.relocate path) := by
      rw [← DependencyOrder.rows_relocate, ← DependencyOrder.ofRecord_relocate hplain]
      rfl
    have hconfigs : (withRecord (m.relocate path) (relocated path s)).workshop.configurations =
        relocatedConfigs .standard path s.workshop.configurations := rfl
    rw [hconfigs, hrows, restorable_relocate, ← relocatedConfigs_restoredConfigs]
    rcases hs.configurations with h | h
    · exact .inl (congrArg _ h)
    · exact .inr (congrArg _ h)

/-- Between calls a relocation succeeds and tells how many data sources there are. -/
theorem run_relocate_steady (hs : Steady earlier m none configs s) (path : String) :
    (relocate path).run s = (.ok s.workshop.sourceCount, relocated path s) := by
  have hnil : s.workshop.namesOfKind .dataSource = [] ↔ s.workshop.sourceCount = 0 := by
    rw [← List.length_eq_zero_iff, Workshop.length_namesOfKind]
  rw [run_relocate path hs.served.names, Workshop.length_namesOfKind, relocated,
    hs.served.faithful.catalog]
  simp only [hnil]

/-- After the relocation no data source is there that was made before. -/
theorem lookup_relocated_ne_source (hs : Steady earlier m none configs s) (path name : String)
    (handle : Nat) (source : DataSource) :
    Keyed.lookup name (relocated path s).workshop.instances ≠
      some (.dataSource handle source) := by
  have hinstances : (relocated path s).workshop.instances =
      if s.workshop.sourceCount = 0 then s.workshop.instances else [] := rfl
  rw [hinstances]
  split
  · exact hs.served.lookup_ne_source ‹_› name handle source
  · simp

/-! ## What is recovered -/

/-- Whether a reproduction recovers and trains what another one does, but for the time. -/
structure RecoversAs (directory : Directory) (r s : Reproduction) : Prop where
  trainer : recoveredTrainer directory r = recoveredTrainer directory s
  dataset : ((recoverDataset directory).run r).1 = ((recoverDataset directory).run s).1
  model : ∀ occasion time, SameButTime occasion time ((fromRecord directory occasion).run r).1
    ((fromRecord directory { occasion with time := time }).run s).1

/-- At another time a reproduction trains the same. -/
theorem sameButTime_fromRecord (directory : Directory) (r : Reproduction) (occasion : Occasion)
    (time : Instant) :
    SameButTime occasion time ((fromRecord directory occasion).run r).1
      ((fromRecord directory { occasion with time := time }).run r).1 := by
  rw [fromRecord_eq_bind, fromRecord_eq_bind]
  rcases hrecover : (recoverTrainer directory).run r with ⟨found, s⟩
  cases found with
  | error e =>
      rw [run_bind_error hrecover, run_bind_error hrecover]
      exact .error e
  | ok handle =>
      rw [run_bind_ok hrecover, run_bind_ok hrecover]
      exact sameButTime_retrain occasion time handle s

/-- Between calls a reproduction recovers and trains what a new one does. -/
theorem recoversAs_prepared (hr : Steady directory m none configs r)
    (hextract : m.record.extract = .ok configs) :
    RecoversAs directory r (prepared .standard m none configs) := by
  refine ⟨recoveredTrainer_of_steady hr hextract, fst_run_recoverDataset hr hextract, ?_⟩
  intro occasion time
  rw [fst_run_fromRecord hr hextract]
  exact sameButTime_fromRecord directory _ occasion time

/-- Over the rewritten record the same is recovered and trained from the same workshop. -/
theorem RecoversAs.of_withRecord (hplain : m.record.pathsPlain = true) (hr : Over m r)
    {path : String} (h : RecoversAs directory (withRecord (m.relocate path) r) s) :
    RecoversAs directory r s := by
  have htrainer : Mirrors (Over m) (withRecord (m.relocate path)) id r
      (recoverTrainer directory) (recoverTrainer directory) :=
    mirrors_recoverTrainer_withRecord hplain hr
  have hdataset : Mirrors (Over m) (withRecord (m.relocate path)) id r
      (recoverDataset directory) (recoverDataset directory) :=
    mirrors_recoverDataset_withRecord hplain hr
  refine ⟨?_, hdataset.fst_run.symm.trans h.dataset, fun occasion time => ?_⟩
  · rw [← h.trainer, recoveredTrainer, recoveredTrainer, htrainer.run]
    rcases (recoverTrainer directory).run r with ⟨found, t⟩
    cases found <;> rfl
  · have hmodel : Mirrors (Over m) (withRecord (m.relocate path)) id r
        (fromRecord directory occasion) (fromRecord directory occasion) :=
      mirrors_fromRecord_withRecord hplain hr occasion
    rw [← hmodel.fst_run]
    exact h.model occasion time

/-- Pointing the data sources to a path sets their paths, tells how many there are, and comes to
the same as setting the paths in the record and starting over.  What was made before is not used:
it is forgotten if there is a data source, no data source that was made is left in any case, and a
trainer that is recovered is a new one. -/
theorem relocate_eq_rewrite (hr : ofRecord m .standard = .ok r)
    (hplain : m.record.pathsPlain = true) {before : List Call}
    (hs : after earlier r before = some s) (path : String) :
    (relocate path).run s = (.ok s.workshop.sourceCount, relocated path s) ∧
      (s.workshop.sourceCount ≠ 0 → (relocated path s).workshop.instances = []) ∧
      (∀ name handle source, Keyed.lookup name (relocated path s).workshop.instances ≠
        some (.dataSource handle source)) ∧
      ∃ fresh, ofRecord (m.relocate path) .standard = .ok fresh ∧
        ∀ directory later u, after directory (relocated path s) later = some u →
          RecoversAs directory u fresh ∧
          ∀ handle v, (recoverTrainer directory).run u = (.ok handle, v) →
            u.workshop.trainers.length ≤ handle := by
  obtain ⟨configs, hextract, rfl⟩ := eq_of_ofRecord hr
  have hsteady := steady_after (steady_prepared earlier hextract none) hextract hs
  have hextractAfter := Record.extract_relocate hplain hextract path
  refine ⟨run_relocate_steady hsteady path, fun hsome => if_neg hsome,
    lookup_relocated_ne_source hsteady path, _, ofRecord_of_extract hextractAfter .standard,
    fun directory later u hu => ?_⟩
  -- the calls take the same steps over the rewritten record, and there they keep what is steady
  have hover : Over m (relocated path s) := ⟨hsteady.record, hsteady.served.faithful.catalog⟩
  obtain ⟨hafter, hholds⟩ := after_withRecord hplain hover directory later path
  rw [hu] at hafter
  have hsteadyAfter := steady_after (steady_relocated hplain hsteady path directory) hextractAfter
    hafter
  have hoverAfter := hholds u hu
  refine ⟨.of_withRecord hplain hoverAfter (recoversAs_prepared hsteadyAfter hextractAfter),
    fun handle v hrun => ?_⟩
  have hmirrors : Mirrors (Over m) (withRecord (m.relocate path)) id u
      (recoverTrainer directory) (recoverTrainer directory) :=
    mirrors_recoverTrainer_withRecord hplain hoverAfter
  have hrunAfter := hmirrors.run
  rw [hrun] at hrunAfter
  exact length_le_of_run_recoverTrainer hsteadyAfter hextractAfter hrunAfter

/-- Without data sources every component that was made is still served after the relocation. -/
theorem run_lookup_relocated_of_no_source (hs : Steady earlier m none configs s)
    (hnone : s.workshop.sourceCount = 0) (path : String) {name : String} {c : Component}
    (hc : Keyed.lookup name s.workshop.instances = some c) :
    (Workshop.lookup directory name).run (relocated path s).workshop =
      (.ok c, (relocated path s).workshop) := by
  rw [relocated_of_no_source hs hnone]
  exact Workshop.run_lookup_of_instance hc

/-- Other points on two axes, in a file with another name. -/
def movedAxes : Directory :=
  Folder.directory ⟨[(.ofText "moved.csv", "x,y,label\n2,0,1\n0,3,-1\n5,0,1\n0,7,-1\n".toUTF8)]⟩

/-- After a training on the first points the model is trained on the other points as from a record
that names their file. -/
theorem relocate_eq_rewrite_movedAxes :
    ∃ d r s u fresh, axesPlan.load axes = .ok d ∧
      ofRecord (.ofTraining d lenient (onLinux 0)) .standard = .ok r ∧
      (ModelRecord.ofTraining d lenient (onLinux 0)).record.pathsPlain = true ∧
      after axes r [.recoverDataset, .fromRecord (onLinux 10)] = some s ∧
      (relocate "moved.csv").run s = (.ok s.workshop.sourceCount, relocated "moved.csv" s) ∧
      s.workshop.sourceCount = 1 ∧
      after movedAxes (relocated "moved.csv" s) [.recoverTrainer] = some u ∧
      ((fromRecord movedAxes (onLinux 30)).run u).1.isOk = true ∧
      ofRecord ((ModelRecord.ofTraining d lenient (onLinux 0)).relocate "moved.csv") .standard =
        .ok fresh ∧
      RecoversAs movedAxes u fresh := by
  have hruns : ((axesPlan.load axes).toOption.any fun d =>
      (ofRecord (.ofTraining d lenient (onLinux 0)) .standard).toOption.any fun r =>
        (ModelRecord.ofTraining d lenient (onLinux 0)).record.pathsPlain &&
        (after axes r [.recoverDataset, .fromRecord (onLinux 10)]).any fun s =>
          s.workshop.sourceCount == 1 &&
          (after movedAxes (relocated "moved.csv" s) [.recoverTrainer]).any fun u =>
            ((fromRecord movedAxes (onLinux 30)).run u).1.isOk) = true := by decide +kernel
  simp only [Option.any_eq_true, Bool.and_eq_true, beq_iff_eq, toOption_eq_some_iff] at hruns
  obtain ⟨d, hload, r, hr, hplain, s, hs, hcount, u, hu, hok⟩ := hruns
  obtain ⟨hrun, -, -, fresh, hfresh, hafter⟩ := relocate_eq_rewrite hr hplain hs "moved.csv"
  exact ⟨d, r, s, u, fresh, hload, hr, hplain, hs, hrun, hcount, hu, hok, hfresh,
    (hafter movedAxes [.recoverTrainer] u hu).1⟩

/-- Two points in memory, which their record cannot bring back. -/
def heldPoints : DatasetPlan :=
  .whole (.memory ["x"] [⟨⟨[0], [1]⟩, 1⟩, ⟨⟨[0], [-1]⟩, -1⟩] "two points")

/-- A trainer that was made before a relocation may be served after it: the record of a model that
was trained on points in memory configures no data source. -/
theorem relocate_not_forgetting :
    ¬∀ (m : ModelRecord) (directory : Directory) (r s u : Reproduction) (before : List Call)
      (path name : String) (count handle : Nat), ofRecord m .standard = .ok r →
        m.record.pathsPlain = true → after directory r before = some s →
        Keyed.lookup name s.workshop.instances = some (.trainer handle) →
        (relocate path).run s = (.ok count, u) →
          ((Workshop.lookup directory name).run u.workshop).1 ≠ .ok (.trainer handle) := by
  intro hclaim
  have hruns : ((heldPoints.load .empty).toOption.any fun d =>
      (ofRecord (.ofTraining d lenient (onLinux 0)) .standard).toOption.any fun r =>
        (ModelRecord.ofTraining d lenient (onLinux 0)).record.pathsPlain &&
        (after .empty r [.recoverTrainer]).any fun s =>
          s.workshop.sourceCount == 0 &&
          (Keyed.lookup "svmtrainer-3" s.workshop.instances).any fun c =>
            c.kind == .trainer) = true := by decide +kernel
  simp only [Option.any_eq_true, Bool.and_eq_true, beq_iff_eq, toOption_eq_some_iff] at hruns
  obtain ⟨d, -, r, hr, hplain, s, hs, hnone, c, hc, hkind⟩ := hruns
  cases c with
  | dataSource handle source => simp [Component.kind] at hkind
  | kernel k => simp [Component.kind] at hkind
  | trainer handle =>
      obtain ⟨configs, hextract, rfl⟩ := eq_of_ofRecord hr
      have hsteady := steady_after (steady_prepared .empty hextract none) hextract hs
      have hserved := @run_lookup_relocated_of_no_source .empty _ _ _ _ hsteady hnone "moved.csv" _
        _ hc
      apply hclaim _ .empty _ s _ _ "moved.csv" _ _ handle hr hplain hs hc
        (run_relocate_steady hsteady "moved.csv")
      rw [hserved]

end Reproduction
end Retrace
