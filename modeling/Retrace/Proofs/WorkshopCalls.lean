import Retrace.Folder
import Retrace.Proofs.FaithfulWorkshop

/-!
# Calls of a workshop

A workshop is used by calls in any order: configurations are registered, properties are overridden,
components are looked up one by one or by class or kind, and trainers are used.  Calls may fail.
Whatever was called before, a component that is looked up is the one that a new workshop with the
same configurations would make, and it stays the same one until a property is overridden.

A broken contract ends the use of a workshop.

Main results:

- Theorem `served_after`: after any calls the workshop is faithful, nothing is being made, and no
  name is taken twice.
- Theorem `lookup_never_stale`: looking up after any calls is looking up in a new workshop.
-/

namespace Retrace
namespace Workshop

/-- A call of a workshop. -/
inductive Call where
  | add (configs : List Configuration)
  | set (name key : String) (value : Property)
  | lookup (name : String)
  | allOfClass (className : String)
  | allOfKind (kind : ComponentKind)
  | train (occasion : Occasion) (handle : Nat) (d : Dataset)

/-- What a call does, whatever it yields. -/
def Call.work (directory : Directory) : Call → Work Unit
  | .add configs => Workshop.add configs
  | .set name key value => setProperty name key value
  | .lookup name => do
      let _ ← Workshop.lookup directory name
      pure ()
  | .allOfClass className => do
      let _ ← Workshop.allOfClass directory className
      pure ()
  | .allOfKind kind => do
      let _ ← Workshop.allOfKind directory kind
      pure ()
  | .train occasion handle d => do
      let _ ← Workshop.train occasion handle d
      pure ()

/-- The workshop after a call, unless a contract was broken. -/
def Call.run (directory : Directory) (call : Call) (w : Workshop) : Option Workshop :=
  match (call.work directory).run w with
  | (.ok (), v) => some v
  | (.error e, v) => if e.isBreach then none else some v

/-- The workshop after calls. -/
def after (directory : Directory) : Workshop → List Call → Option Workshop
  | w, [] => some w
  | w, call :: rest => (call.run directory w).bind fun v => after directory v rest

/-- Whether a call overrides a property. -/
def Call.overrides (w : Workshop) : Call → Bool
  | .set name key value => ((setProperty name key value).run w).1.isOk
  | _ => false

/-- Whether none of some calls overrides a property. -/
def Undisturbed (directory : Directory) : Workshop → List Call → Prop
  | _, [] => True
  | w, call :: rest =>
      call.overrides w = false ∧ ∀ v, call.run directory w = some v → Undisturbed directory v rest

/-- What holds of a workshop between calls. -/
structure Served (directory : Directory) (w : Workshop) : Prop where
  faithful : w.Faithful directory
  idle : w.making = []
  names : (w.configurations.map Configuration.name).Nodup

variable {directory : Directory} {w v : Workshop}

/-! ## Single calls -/

/-- Registering keeps what is there and puts configurations with new names behind. -/
theorem exists_run_add (configs : List Configuration) (w : Workshop)
    (hnames : (w.configurations.map Configuration.name).Nodup) :
    ∃ r more, (add configs).run w =
        (r, { w with configurations := w.configurations ++ more }) ∧
      ((w.configurations ++ more).map Configuration.name).Nodup := by
  induction configs generalizing w with
  | nil => exact ⟨.ok (), [], by rw [List.append_nil]; rfl, by rwa [List.append_nil]⟩
  | cons c rest ih =>
      have hone := run_addOne c w
      cases htaken : w.configuration? c.name with
      | some d =>
          rw [htaken, Option.isSome_some, if_pos rfl] at hone
          exact ⟨_, [], by rw [add, run_bind_error hone, List.append_nil],
            by rwa [List.append_nil]⟩
      | none =>
          rw [htaken, Option.isSome_none, if_neg Bool.false_ne_true] at hone
          have hnew : ((w.configurations ++ [c]).map Configuration.name).Nodup := by
            rw [List.map_append, List.nodup_append]
            refine ⟨hnames, by simp, ?_⟩
            intro name hname other hother heq
            rw [configuration?, List.find?_eq_none] at htaken
            rcases List.mem_map.1 hname with ⟨d, hd, rfl⟩
            exact htaken d hd (by simpa using heq.trans (List.mem_singleton.1 hother))
          obtain ⟨r, more, hrun, hmore⟩ :=
            ih { w with configurations := w.configurations ++ [c] } hnew
          refine ⟨r, c :: more, ?_, by simpa using hmore⟩
          rw [add, run_bind_ok hone, hrun]
          simp

/-- Registering more configurations leaves a workshop faithful. -/
theorem Faithful.append (hw : w.Faithful directory) (more : List Configuration) :
    ({ w with configurations := w.configurations ++ more } : Workshop).Faithful directory := by
  refine ⟨hw.catalog, fun hc => ?_⟩
  rcases hw.serves hc with ⟨product, hproduct, hsettings⟩
  exact ⟨product, described_append hproduct more, hsettings⟩

/-- Looking several components up keeps a workshop faithful. -/
theorem keeps_lookupAll (names : List String) (hw : w.Faithful directory) :
    Keeps directory w (lookupAll directory names) fun _ _ => True := by
  induction names generalizing w with
  | nil => exact .pure hw trivial
  | cons name rest ih =>
      refine (keeps_lookup name hw).bind fun c v hv _ _ => ?_
      exact (ih hv).bind fun more u hu _ _ => .pure hu trivial

/-- Using a trainer changes the number of its uses alone. -/
theorem exists_run_train (occasion : Occasion) (handle : Nat) (d : Dataset) (w : Workshop) :
    ∃ r trainers, (train occasion handle d).run w = (r, { w with trainers := trainers }) ∧
      ∀ c, ({ w with trainers := trainers } : Workshop).settings? c = w.settings? c := by
  cases htrainer : w.trainer? handle with
  | none =>
      refine ⟨.error (.breach .outOfRange), w.trainers, ?_, fun _ => rfl⟩
      rw [train, run_get_bind, htrainer]
      exact run_throw _ _
  | some t =>
      have hunused : (Product.trainer (t.train occasion d).2).unused =
          (Product.trainer t).unused := by
        cases hfault : t.settings.fault? with
        | none => rw [Trainer.count_train hfault]; rfl
        | some fault => rw [Trainer.train_of_invalid hfault]
      refine ⟨(t.train occasion d).1, w.trainers.set handle (t.train occasion d).2, ?_, ?_⟩
      · rw [train, run_get_bind, htrainer]
        simp only
        rw [run_modify_bind]
        cases (t.train occasion d).1 <;> rfl
      · intro c
        cases c with
        | kernel k => rfl
        | dataSource other source => rfl
        | trainer other =>
            simp only [settings?, trainer?, List.getElem?_set]
            split
            · rename_i heq
              rw [← heq]
              rw [trainer?] at htrainer
              obtain ⟨hlt, -⟩ := List.getElem?_eq_some_iff.1 htrainer
              rw [if_pos hlt, htrainer, Option.map_some, Option.map_some, hunused]
            · rfl

/-- A call that ends has done its work without breaking a contract. -/
theorem Call.exists_run_work {call : Call} (h : call.run directory w = some v) :
    ∃ r, (call.work directory).run w = (r, v) ∧ ∀ e, r = .error e → e.isBreach = false := by
  rw [Call.run] at h
  split at h
  · rename_i u hrun
    exact ⟨_, Option.some.inj h ▸ hrun, by simp⟩
  · rename_i e u hrun
    split at h
    · simp at h
    · rename_i hbreach
      exact ⟨_, Option.some.inj h ▸ hrun, fun f hf => by
        rw [← Except.error.inj hf]; simpa using hbreach⟩

/-- Registering puts configurations with new names behind those that are there. -/
theorem Call.eq_of_run_add {configs : List Configuration}
    (hnames : (w.configurations.map Configuration.name).Nodup)
    (h : (Call.add configs).run directory w = some v) :
    ∃ more, v = { w with configurations := w.configurations ++ more } ∧
      (v.configurations.map Configuration.name).Nodup := by
  obtain ⟨r, hrun, -⟩ := Call.exists_run_work h
  obtain ⟨other, more, hadd, hmore⟩ := exists_run_add configs w hnames
  obtain ⟨-, rfl⟩ := Prod.mk.inj (hrun.symm.trans hadd)
  exact ⟨more, rfl, hmore⟩

/-- Setting a property changes nothing, or it overrides the property and forgets what was made. -/
theorem Call.cases_of_run_set {name key : String} {value : Property}
    (h : (Call.set name key value).run directory w = some v) :
    v = w ∨ (Call.set name key value).overrides w = true ∧ v.catalog = w.catalog ∧
      v.making = w.making ∧ v.instances = [] ∧
      v.configurations.map Configuration.name = w.configurations.map Configuration.name := by
  obtain ⟨r, hrun, -⟩ := Call.exists_run_work h
  cases hconfig : w.configuration? name with
  | none =>
      have hset : (setProperty name key value).run w =
          (.error (.component name .notRegistered), w) := by
        rw [setProperty, run_get_bind, hconfig]
        rfl
      obtain ⟨-, rfl⟩ := Prod.mk.inj (hrun.symm.trans hset)
      exact .inl rfl
  | some config =>
      have hset := @run_setProperty _ key value _ _ hconfig
      obtain ⟨-, rfl⟩ := Prod.mk.inj (hrun.symm.trans hset)
      refine .inr ⟨?_, rfl, rfl, rfl, map_override Configuration.name_set ..⟩
      simp [Call.overrides, hset, Except.isOk, Except.toBool]

/-- A training changes the number of uses of a trainer alone. -/
theorem Call.eq_of_run_train {occasion : Occasion} {handle : Nat} {d : Dataset}
    (h : (Call.train occasion handle d).run directory w = some v) :
    ∃ trainers, v = { w with trainers := trainers } ∧ ∀ c, v.settings? c = w.settings? c := by
  obtain ⟨r, hrun, -⟩ := Call.exists_run_work h
  obtain ⟨found, trainers, htrain, hsettings⟩ := exists_run_train occasion handle d w
  have hv : v = { w with trainers := trainers } := by
    cases found with
    | ok m => exact (Prod.mk.inj (hrun.symm.trans (run_bind_ok htrain))).2
    | error e => exact (Prod.mk.inj (hrun.symm.trans (run_bind_error htrain))).2
  exact ⟨trainers, hv, hv ▸ hsettings⟩

/-- Work that keeps a workshop leaves it as it must be between calls. -/
theorem Keeps.served {call : Call}
    (hkeeps : Keeps directory w (call.work directory) fun _ _ => True) (hw : Served directory w)
    (h : call.run directory w = some v) : Served directory v ∧ w.GrowsTo v := by
  obtain ⟨r, hrun, horderly⟩ := Call.exists_run_work h
  cases hkeeps with
  | ok b u run faithful grows making yields =>
      obtain ⟨-, rfl⟩ := Prod.mk.inj (hrun.symm.trans run)
      exact ⟨⟨faithful, making.trans hw.idle, grows.configurations ▸ hw.names⟩, grows⟩
  | error e u run faithful grows making =>
      obtain ⟨hr, rfl⟩ := Prod.mk.inj (hrun.symm.trans run)
      exact ⟨⟨faithful, (making (horderly e hr)).trans hw.idle, grows.configurations ▸ hw.names⟩,
        grows⟩

/-- A workshop stays as it must be between calls, and it keeps what it made unless a property is
overridden. -/
theorem Call.served_run {call : Call} (hw : Served directory w)
    (h : call.run directory w = some v) :
    Served directory v ∧ (call.overrides w = false → ∀ {name c},
      Keyed.lookup name w.instances = some c → Keyed.lookup name v.instances = some c) := by
  -- looking up makes only what is described; no other call makes anything
  have hlook : Keeps directory w (call.work directory) (fun _ _ => True) → Served directory v ∧
      (call.overrides w = false → ∀ {name c},
        Keyed.lookup name w.instances = some c → Keyed.lookup name v.instances = some c) := by
    intro hkeeps
    obtain ⟨hv, hgrows⟩ := hkeeps.served hw h
    exact ⟨hv, fun _ => hgrows.instances⟩
  cases call with
  | add configs =>
      obtain ⟨more, rfl, hnames⟩ := Call.eq_of_run_add hw.names h
      exact ⟨⟨hw.faithful.append more, hw.idle, hnames⟩, fun _ _ _ hc => hc⟩
  | set name key value =>
      rcases Call.cases_of_run_set h with rfl | ⟨hoverrides, hcatalog, hmaking, hnone, hnames⟩
      · exact ⟨hw, fun _ _ _ hc => hc⟩
      · refine ⟨⟨⟨hcatalog.trans hw.faithful.catalog, fun hc => ?_⟩, hmaking.trans hw.idle,
          hnames ▸ hw.names⟩, fun hfalse => ?_⟩
        · simp [hnone] at hc
        · simp [hoverrides] at hfalse
  | lookup name =>
      exact hlook ((keeps_lookup name hw.faithful).bind fun _ _ hu _ _ => .pure hu trivial)
  | allOfClass className =>
      apply hlook
      exact (keeps_lookupAll _ hw.faithful).get_bind.bind fun _ _ hu _ _ => .pure hu trivial
  | allOfKind kind =>
      apply hlook
      exact (keeps_lookupAll _ hw.faithful).get_bind.bind fun _ _ hu _ _ => .pure hu trivial
  | train occasion handle d =>
      obtain ⟨trainers, rfl, hsettings⟩ := Call.eq_of_run_train h
      refine ⟨⟨⟨hw.faithful.catalog, fun hc => ?_⟩, hw.idle, hw.names⟩, fun _ _ _ hc => hc⟩
      rcases hw.faithful.serves hc with ⟨product, hproduct, hsame⟩
      exact ⟨product, hproduct, (hsettings _).trans hsame⟩

/-! ## Runs of calls -/

/-- A new workshop is as it must be between calls. -/
theorem served_holding (directory : Directory) {configs : List Configuration}
    (hnames : (configs.map Configuration.name).Nodup) :
    Served directory (holding .standard configs) :=
  ⟨⟨rfl, fun hc => by simp [holding, ofCatalog] at hc⟩, rfl, hnames⟩

/-- After any calls a workshop is as it must be between calls. -/
theorem served_after {calls : List Call} (hw : Served directory w)
    (h : after directory w calls = some v) : Served directory v := by
  induction calls generalizing w with
  | nil => exact Option.some.inj h ▸ hw
  | cons call rest ih =>
      rw [after, Option.bind_eq_some_iff] at h
      rcases h with ⟨u, hcall, h⟩
      exact ih (Call.served_run hw hcall).1 h

/-- A component that was made stays until a property is overridden. -/
theorem lookup_instances_after {calls : List Call} (hw : Served directory w)
    (h : after directory w calls = some v) (hcalls : Undisturbed directory w calls) {name : String}
    {c : Component} (hc : Keyed.lookup name w.instances = some c) :
    Keyed.lookup name v.instances = some c := by
  induction calls generalizing w with
  | nil => exact Option.some.inj h ▸ hc
  | cons call rest ih =>
      rw [after, Option.bind_eq_some_iff] at h
      rcases h with ⟨u, hcall, h⟩
      obtain ⟨hu, hinstances⟩ := Call.served_run hw hcall
      exact ih hu h (hcalls.2 u hcall) (hinstances hcalls.1 hc)

/-- A component that was made is found as it is. -/
theorem run_lookup_of_instance {name : String} {c : Component}
    (h : Keyed.lookup name w.instances = some c) : (lookup directory name).run w = (.ok c, w) := by
  rw [lookup, run_get_bind, depth, lookupWithin, run_get_bind, h]
  rfl

/-- A component found after any calls has the settings of the one that a new workshop with the same
configurations finds. -/
theorem settings_lookup_holding (hw : Served directory w) {name : String} {c : Component}
    (h : (lookup directory name).run w = (.ok c, v)) :
    ∃ d u settings, (lookup directory name).run (holding .standard w.configurations) = (.ok d, u) ∧
      v.settings? c = some settings ∧ u.settings? d = some settings := by
  have hnew := served_holding directory hw.names
  obtain ⟨-, hgrows, -, ⟨product, hproduct, hsettings⟩, -⟩ :=
    (keeps_lookup name hw.faithful).of_run_ok h
  rw [hgrows.configurations] at hproduct
  obtain ⟨d, u, hrun⟩ := exists_run_lookup hnew.faithful hnew.idle hproduct
  obtain ⟨-, hgrowsNew, -, ⟨other, hother, hsettingsNew⟩, -⟩ :=
    (keeps_lookup name hnew.faithful).of_run_ok hrun
  rw [hgrowsNew.configurations] at hother
  obtain rfl := Option.some.inj (hproduct.symm.trans hother)
  exact ⟨d, u, _, hrun, hsettings, hsettingsNew⟩

/-- Whatever was called, a workshop finds what a new workshop with its configurations would make,
and it finds the same component again until a property is overridden. -/
theorem lookup_never_stale {directory : Directory} {calls : List Call} {w : Workshop}
    (h : after directory (ofCatalog .standard) calls = some w) :
    (w.configurations.map Configuration.name).Nodup ∧
      (∀ name c, w.configuration? name = some c ↔ c ∈ w.configurations ∧ c.name = name) ∧
      (add w.configurations).run (ofCatalog .standard) =
        (.ok (), holding .standard w.configurations) ∧
      ∀ name,
        ((∃ c v, (lookup directory name).run w = (.ok c, v)) ↔
          ∃ d u, (lookup directory name).run (holding .standard w.configurations) = (.ok d, u)) ∧
        ∀ c v, (lookup directory name).run w = (.ok c, v) →
          (∃ d u settings,
            (lookup directory name).run (holding .standard w.configurations) = (.ok d, u) ∧
              v.settings? c = some settings ∧ u.settings? d = some settings) ∧
          ∀ more u, after directory v more = some u → Undisturbed directory v more →
            (lookup directory name).run u = (.ok c, u) := by
  have hw : Served directory w :=
    served_after (@served_holding directory [] List.nodup_nil) h
  have hnew := served_holding directory hw.names
  refine ⟨hw.names, fun name c => ⟨fun hc => ?_, ?_⟩, run_add hw.names, fun name => ⟨?_,
    fun c v hrun => ⟨settings_lookup_holding hw hrun, fun more u hmore hcalls => ?_⟩⟩⟩
  · exact ⟨List.mem_of_find?_eq_some hc, by simpa using List.find?_some hc⟩
  · rintro ⟨hc, rfl⟩
    exact configuration?_of_mem hw.names hc
  · rw [exists_run_lookup_iff hw.faithful hw.idle, exists_run_lookup_iff hnew.faithful hnew.idle]
    rfl
  · obtain ⟨hfaithful, hgrows, hmaking, -, hc⟩ := (keeps_lookup name hw.faithful).of_run_ok hrun
    have hv : Served directory v :=
      ⟨hfaithful, hmaking.trans hw.idle, hgrows.configurations ▸ hw.names⟩
    exact run_lookup_of_instance (lookup_instances_after hv hmore hcalls hc)

/-- A kernel, a trainer that refers to it, and a file. -/
def bench : List Configuration :=
  [⟨"rbfkernel-0", "RBFKernel", [("gamma", .value "0.5")]⟩,
    ⟨"svmtrainer-1", "SVMTrainer", [("kernel", .component "rbfkernel-0")]⟩,
    ⟨"csvsource-2", "CSVSource", [("path", .value "points.csv")]⟩]

/-- The file of the configurations. -/
def benchFiles : Directory :=
  Folder.directory ⟨[(.ofText "points.csv", "x,label\n1,1\n".toUTF8)]⟩

/-- Everything is made, a second registration fails, and the kernel is overridden. -/
def benchCalls : List Call :=
  [.add bench, .lookup "svmtrainer-1", .allOfKind .dataSource, .add bench,
    .set "rbfkernel-0" "gamma" (.value "0.25")]

/-- After its kernel was overridden a trainer is found anew, with the settings that a new workshop
finds. -/
theorem lookup_never_stale_bench :
    ∃ w c v, after benchFiles (ofCatalog .standard) benchCalls = some w ∧
      (lookup benchFiles "svmtrainer-1").run w = (.ok c, v) ∧
      ∃ d u settings,
        (lookup benchFiles "svmtrainer-1").run (holding .standard w.configurations) = (.ok d, u) ∧
          v.settings? c = some settings ∧ u.settings? d = some settings := by
  have hfinds : ((after benchFiles (ofCatalog .standard) benchCalls).any fun w =>
      ((lookup benchFiles "svmtrainer-1").run w).1.isOk) = true := by decide +kernel
  rw [Option.any_eq_true] at hfinds
  obtain ⟨w, hafter, hfinds⟩ := hfinds
  cases hrun : (lookup benchFiles "svmtrainer-1").run w with
  | mk r v =>
      cases r with
      | error e => simp [hrun, Except.isOk, Except.toBool] at hfinds
      | ok c =>
          obtain ⟨-, -, -, hlookup⟩ := lookup_never_stale hafter
          exact ⟨w, c, v, hafter, hrun, ((hlookup "svmtrainer-1").2 c v hrun).1⟩

end Workshop
end Retrace
