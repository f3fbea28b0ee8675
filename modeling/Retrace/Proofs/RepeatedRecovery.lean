import Retrace.Proofs.RecoverableTrainers
import Retrace.Proofs.RepeatedReproduction
import Retrace.Proofs.Routes

/-!
# Recoveries can be repeated

Not only training can be repeated, so can its two halves.  After any calls a reproduction recovers
the dataset that it would have recovered at first, and a trainer that is like the one that it would
have recovered at first.  The source of the dataset may have been made before; then it was made from
the same configuration, for restored counts leave the configurations of data sources alone.  The
trainer is always a new one.

Main results:

- Theorem `fst_run_recoverDataset`: after any calls the same dataset is recovered.
- Theorem `recoveredTrainer_of_steady`: after any calls a trainer like the first one is recovered.
- Theorem `length_le_of_run_recoverTrainer`: a recovered trainer was not there before.
-/

namespace Retrace

/-! ## Looking up a data source -/

namespace Workshop

variable {directory : Directory} {w : Workshop} {name : String} {c : Configuration}
  {format : DataFormat}

/-- The data source that the configuration of a file describes. -/
def loadedFile (format : DataFormat) (directory : Directory) (c : Configuration) :
    Result DataSource := do
  let path ← c.checked "path" Configuration.text
  DataSource.ofFile format directory (.ofText path)

/-- The recipe of a file loads it and asks for nothing. -/
theorem recipe_file_eq (format : DataFormat) (directory : Directory) (c : Configuration) :
    Recipe.file format directory c =
      .ofResult ((loadedFile format directory c).map .dataSource) := by
  rw [Recipe.file, loadedFile]
  cases c.checked "path" Configuration.text with
  | error e => rfl
  | ok path =>
      simp only [bind, Except.bind]
      cases DataSource.ofFile format directory (.ofText path) <;> rfl

/-- Whether or not it was made before, a data source that is looked up is the one that its
configuration describes. -/
theorem fst_run_lookup_source (hw : Served directory w) (hconfig : w.configuration? name = some c)
    (hclass : c.className = DataSource.fileClass format) :
    ∃ handle, ((lookup directory name).run w).1 =
      ((loadedFile format directory c).map (Component.dataSource handle)).mapError
        (Error.within c.name) := by
  have hentry : Catalog.standard.entry? c.className =
      some ⟨.dataSource, Recipe.file format⟩ := by
    rw [hclass, entry?_fileClass]
  cases hinstance : Keyed.lookup name w.instances with
  | some found =>
      -- what was made is what the configurations describe, and here that is the file
      obtain ⟨product, hproduct, hsettings⟩ := hw.faithful.serves hinstance
      obtain ⟨d, entry, hd, hdentry, houtcome⟩ := described_eq_some_iff.1 hproduct
      obtain rfl := Option.some.inj (hconfig.symm.trans hd)
      obtain rfl := Option.some.inj (hentry.symm.trans hdentry)
      simp only [recipe_file_eq, Recipe.outcome_ofResult, toOption_eq_some_iff] at houtcome
      cases hload : loadedFile format directory c with
      | error e => simp [hload, Except.map] at houtcome
      | ok source =>
          rw [hload, Except.map, Except.ok.injEq] at houtcome
          have hunused : (Product.dataSource source).unused = .dataSource source := rfl
          rw [← houtcome, hunused] at hsettings
          rw [run_lookup_of_instance hinstance]
          cases found with
          | kernel k => simp [settings?] at hsettings
          | trainer handle => simp [settings?, Product.unused] at hsettings
          | dataSource handle other =>
              simp only [settings?, Option.some.injEq, Product.dataSource.injEq] at hsettings
              rw [hsettings]
              exact ⟨handle, rfl⟩
  | none =>
      have hentryHere : ({ w with making := [name] } : Workshop).catalog.entry? c.className =
          some ⟨.dataSource, Recipe.file format⟩ := by
        rw [← hentry, ← hw.faithful.catalog]
      refine ⟨w.sources, ?_⟩
      cases hload : loadedFile format directory c with
      | error e =>
          have hfollow : (follow (lookupWithin directory w.configurations.length)
              (Recipe.file format directory c)).run { w with making := [name] } =
                (.error e, { w with making := [name] }) := by
            rw [recipe_file_eq, hload]
            rfl
          obtain ⟨u, hrun⟩ := run_lookup_error hw.idle hinstance hconfig
            (run_make_of_follow_error hentryHere hfollow)
          rw [hrun]
          rfl
      | ok source =>
          have hfollow : (follow (lookupWithin directory w.configurations.length)
              (Recipe.file format directory c)).run { w with making := [name] } =
                (.ok (.dataSource source), { w with making := [name] }) := by
            rw [recipe_file_eq, hload]
            rfl
          rw [run_lookup hw.idle hinstance hconfig (run_make hentryHere hfollow rfl)]
          rfl

end Workshop

namespace Reproduction

open DependencyOrder (rowName)

variable {directory : Directory} {m : ModelRecord} {reference : Option Model}
  {configs : List Configuration} {r s : Reproduction}

/-! ## Recovering the dataset -/

/-- The classes of data sources are those of files. -/
theorem exists_fileClass {className : String}
    (h : Catalog.standard.kindOf? className = some .dataSource) :
    ∃ format, className = DataSource.fileClass format := by
  rw [Catalog.kindOf?, Option.map_eq_some_iff] at h
  obtain ⟨entry, hentry, hkind⟩ := h
  rcases Catalog.eq_of_entry?_standard hentry with ⟨-, rfl⟩ | ⟨-, rfl⟩ | ⟨format, hclass, -⟩
  · simp at hkind
  · simp at hkind
  · exact ⟨format, hclass⟩

/-- A data source that is looked up is the one that is recovered. -/
theorem fst_run_expectSource {name : String} {handle : Nat} {found : Result DataSource}
    {f : Error → Error} (h : ((Workshop.lookup directory name).run r.workshop).1 =
      (found.map (Component.dataSource handle)).mapError f) :
    ((do
      match ← inWorkshop (Workshop.lookup directory name) with
      | .dataSource _ source => pure source
      | _ => throw (.recovery (.notDataSource name)) : Step DataSource).run r).1 =
      found.mapError f := by
  have hwork := run_inWorkshop (Workshop.lookup directory name) r
  rw [h] at hwork
  cases found with
  | error e =>
      rw [run_bind_error hwork]
      rfl
  | ok source =>
      rw [run_bind_ok hwork]
      rfl

/-- Where the configuration of a source is the same, the same source is recovered. -/
theorem fst_run_recoverLeaf_congr (hr : Workshop.Served directory r.workshop)
    (hs : Workshop.Served directory s.workshop) {order : DependencyOrder} {leaf : Occurrence}
    (hsame : leaf.record.configurable = true → ∀ name, order.nameOf? leaf = some name →
      ∃ c, c.className = leaf.record.className ∧ r.workshop.configuration? name = some c ∧
        s.workshop.configuration? name = some c) :
    ((recoverLeaf directory order leaf).run r).1 =
      ((recoverLeaf directory order leaf).run s).1 := by
  rw [recoverLeaf]
  cases hconf : leaf.record.configurable with
  | false => rfl
  | true =>
      simp only [Bool.not_true, Bool.false_eq_true, if_false]
      rw [run_get_bind, run_get_bind, hr.faithful.catalog, hs.faithful.catalog]
      by_cases hkind : Catalog.standard.kindOf? leaf.record.className = some .dataSource
      · rw [if_neg (not_not.2 hkind)]
        cases hname : order.nameOf? leaf with
        | none => rfl
        | some name =>
            obtain ⟨c, hclass, hconfig, hconfigOther⟩ := hsame hconf name hname
            obtain ⟨format, hformat⟩ := exists_fileClass hkind
            rw [← hclass] at hformat
            obtain ⟨handle, hlookup⟩ := Workshop.fst_run_lookup_source hr hconfig hformat
            obtain ⟨other, hlookupOther⟩ := Workshop.fst_run_lookup_source hs hconfigOther hformat
            exact (fst_run_expectSource hlookup).trans (fst_run_expectSource hlookupOther).symm
      · rw [if_pos hkind]
        rfl

theorem restoredText_eq_none {rows : List (Nat × Occurrence)} {name : String}
    (h : ∀ row ∈ rows, rowName row = name → countText? row.2 = none) :
    restoredText rows name = none := by
  induction rows with
  | nil => rfl
  | cons row rest ih =>
      rw [restoredText, ih fun other hother => h other (List.mem_cons_of_mem _ hother),
        Option.none_or]
      split
      · exact h row List.mem_cons_self ‹_›
      · rfl

/-- The configuration of an object that is no trainer is the extracted one between all calls. -/
theorem Steady.configuration? (hr : Steady directory m reference configs r) {o : Occurrence}
    (ho : o ∈ m.record.occurrences) (hkind : o.record.kind ≠ .trainer) {name : String}
    (hname : (DependencyOrder.ofRecord m.record).nameOf? o = some name) :
    r.workshop.configuration? name = configs.find? fun c => c.name == name := by
  rcases hr.configurations with hconfigs | hconfigs
  · rw [Workshop.configuration?, hconfigs]
  · have hnone : restoredText (restorable (DependencyOrder.ofRecord m.record).rows) name =
        none := by
      apply restoredText_eq_none
      intro row hrow hsame
      -- the only row under the name is that of the object, and the object is no trainer
      obtain ⟨hmem, hrowName⟩ := DependencyOrder.nameOf?_of_mem_rows (List.takeWhile_subset _ hrow)
      rw [hsame] at hrowName
      rw [DependencyOrder.eq_of_nameOf? hmem ho hrowName hname, countText?]
      simp [hkind]
    rw [Workshop.configuration?, hconfigs, find?_restoredConfigs, hnone]
    cases configs.find? (fun c => c.name == name) <;> rfl

/-- After any calls the dataset is recovered that would have been recovered at first. -/
theorem fst_run_recoverDataset (hr : Steady directory m reference configs r)
    (hextract : m.record.extract = .ok configs) :
    ((recoverDataset directory).run r).1 =
      ((recoverDataset directory).run (prepared .standard m none configs)).1 := by
  have hnew := steady_prepared directory hextract none
  rw [run_recoverDataset_eq, run_recoverDataset_eq, hr.record, hnew.record]
  cases hroute : m.route with
  | error e => rfl
  | ok route =>
      obtain ⟨hmem, hkind⟩ := ModelRecord.mem_of_route hroute
      have hother : route.leaf.record.kind ≠ .trainer := by simp [hkind]
      have hleaf : ((recoverLeaf directory (.ofRecord m.record) route.leaf).run r).1 =
          ((recoverLeaf directory (.ofRecord m.record) route.leaf).run
            (prepared .standard m none configs)).1 := by
        apply fst_run_recoverLeaf_congr hr.served hnew.served
        intro hconf name hname
        obtain ⟨c, hc, rfl, hholds⟩ := Record.exists_configuration hextract hmem hconf hname
        have hfound : configs.find? (fun d => d.name == c.name) = some c :=
          Workshop.configuration?_of_mem (w := .holding .standard configs)
            (Record.nodup_configurationNames hextract) hc
        exact ⟨c, hholds.className, (hr.configuration? hmem hother hname).trans hfound,
          (hnew.configuration? hmem hother hname).trans hfound⟩
      simp only
      rw [fst_run_recoverAlong, fst_run_recoverAlong, hr.served.faithful.catalog,
        hnew.served.faithful.catalog, hleaf]

/-! ## Recovering the trainer -/

/-- The trainer that is recovered. -/
def recoveredTrainer (directory : Directory) (r : Reproduction) : Result (Option Trainer) :=
  match (recoverTrainer directory).run r with
  | (.error e, _) => .error e
  | (.ok handle, s) => .ok (s.workshop.trainer? handle)

/-- The trainer that is recovered once the counts were restored. -/
def restoredTrainer (directory : Directory) (className : String) (w : Workshop) :
    Result (Option Trainer) :=
  match recoverRestored directory className w with
  | (.error e, _) => .error e
  | (.ok handle, v) => .ok (v.trainer? handle)

/-- Older components do not matter to the trainer that is recovered. -/
theorem restoredTrainer_withOlder {older : List Trainer} {n : Nat} {w : Workshop}
    (hw : w.IsStandard) (className : String) :
    restoredTrainer directory className (w.withOlder older n) =
      restoredTrainer directory className w := by
  obtain ⟨hrecover, -⟩ := recoverRestored_withOlder directory older n hw className
  rw [restoredTrainer, restoredTrainer, hrecover]
  rcases recoverRestored directory className w with ⟨found, v⟩
  cases found with
  | error e => rfl
  | ok handle =>
      have htrainer : (v.withOlder older n).trainer? (older.length + handle) =
          v.trainer? handle := by
        rw [Workshop.trainer?, Workshop.trainer?, Workshop.withOlder,
          List.getElem?_append_right (Nat.le_add_right ..), Nat.add_sub_cancel_left]
      exact congrArg Except.ok htrainer

variable {own : Occurrence}

/-- A trainer that has a configuration is recovered with the restored counts. -/
theorem recoveredTrainer_restored
    (hregistered : Registered (DependencyOrder.ofRecord r.record.record).rows r.workshop)
    (hown : r.record.trainer = .ok own) (hconf : own.record.configurable = true) :
    recoveredTrainer directory r =
      match (DependencyOrder.ofRecord r.record.record).rows.findSome? countFault? with
      | some e => .error e
      | none => restoredTrainer directory own.record.className
          (restoredWorkshop (DependencyOrder.ofRecord r.record.record).rows r.workshop) := by
  rw [recoveredTrainer, run_recoverTrainer_restored hregistered hown hconf]
  cases (DependencyOrder.ofRecord r.record.record).rows.findSome? countFault? with
  | some e => rfl
  | none =>
      simp only
      rw [restoredTrainer]
      rcases recoverRestored directory own.record.className
        (restoredWorkshop (DependencyOrder.ofRecord r.record.record).rows r.workshop) with
        ⟨found, w⟩
      cases found <;> rfl

/-- After any calls a trainer is recovered that is like the one that would have been recovered at
first. -/
theorem recoveredTrainer_of_steady (hr : Steady directory m reference configs r)
    (hextract : m.record.extract = .ok configs) :
    recoveredTrainer directory r =
      recoveredTrainer directory (prepared .standard m none configs) := by
  have hnew := steady_prepared directory hextract none
  cases hown : m.trainer with
  | error fault =>
      rw [recoveredTrainer, recoveredTrainer, run_recoverTrainer_of_error (hr.record ▸ hown),
        run_recoverTrainer_of_error (hnew.record ▸ hown)]
  | ok own =>
      cases hconf : own.record.configurable with
      | false =>
          rw [recoveredTrainer, recoveredTrainer,
            run_recoverTrainer_of_not_configurable (hr.record ▸ hown) hconf,
            run_recoverTrainer_of_not_configurable (hnew.record ▸ hown) hconf]
      | true =>
          have hregistered := hr.registered hextract
          have hregisteredNew := hnew.registered hextract
          rw [recoveredTrainer_restored (hr.record ▸ hregistered) (hr.record ▸ hown) hconf,
            recoveredTrainer_restored (hnew.record ▸ hregisteredNew) (hnew.record ▸ hown) hconf,
            hr.record, hnew.record]
          cases hfaults : (DependencyOrder.ofRecord m.record).rows.findSome? countFault? with
          | some e => rfl
          | none =>
              have hstandard : (restoredWorkshop (DependencyOrder.ofRecord m.record).rows
                  (.holding .standard configs)).IsStandard := rfl
              simp only
              rw [restoredWorkshop_of_steady hr hown hconf hfaults]
              exact restoredTrainer_withOlder hstandard own.record.className

/-- A recovered trainer was not there before. -/
theorem length_le_of_run_recoverTrainer (hr : Steady directory m reference configs r)
    (hextract : m.record.extract = .ok configs) {handle : Nat}
    (h : (recoverTrainer directory).run r = (.ok handle, s)) :
    r.workshop.trainers.length ≤ handle := by
  have hregistered : Registered (DependencyOrder.ofRecord r.record.record).rows r.workshop := by
    rw [hr.record]
    exact hr.registered hextract
  obtain ⟨own, -, hown, hconf, -⟩ := exists_of_run_recoverTrainer hregistered h
  rw [run_recoverTrainer_restored hregistered hown hconf, hr.record] at h
  cases hfaults : (DependencyOrder.ofRecord m.record).rows.findSome? countFault? with
  | some e =>
      rw [hfaults] at h
      exact absurd (Prod.mk.inj h).1 (by simp)
  | none =>
      have hstandard : (restoredWorkshop (DependencyOrder.ofRecord m.record).rows
          (.holding .standard configs)).IsStandard := rfl
      obtain ⟨hrecover, -⟩ := recoverRestored_withOlder directory r.workshop.trainers
        r.workshop.sources hstandard own.record.className
      rw [hfaults] at h
      simp only at h
      rw [restoredWorkshop_of_steady hr (hr.record ▸ hown) hconf hfaults, hrecover] at h
      rcases hfound : recoverRestored directory own.record.className
        (restoredWorkshop (DependencyOrder.ofRecord m.record).rows
          (.holding .standard configs)) with ⟨found, w⟩
      rw [hfound] at h
      cases found with
      | error e => exact absurd (Prod.mk.inj h).1 (by simp)
      | ok first =>
          have hhandle := Except.ok.inj (Prod.mk.inj h).1
          rw [← hhandle]
          exact Nat.le_add_right ..

end Reproduction
end Retrace
