import Retrace.Proofs.RetainedViews

/-!
# Uses of a reproduction

Between the calls of a reproduction properties of its configurations are overridden, its data
sources are pointed to other files, and files change.  Over any catalog, and whether the uses end
well or not, the configurations are what the overrides make of the extracted ones, but for the
counts that recoveries put there.

Main results:

- Theorem `run_relocate`: what pointing the data sources to a path does.
- Theorem `retains_call`: what no call changes.
- Theorem `lasting_afterUses`: what uses leave of the configurations.
-/

namespace Retrace

/-! ## Two values in one configuration -/

/-- Values of two keys may be inserted in either order, the lesser key first. -/
theorem Keyed.insert_comm_of_lt {β : Type} {a b : String} (hlt : a < b) (x y : β)
    (entries : List (String × β)) :
    insert a x (insert b y entries) = insert b y (insert a x entries) := by
  have hba : ¬b < a := String.lt_asymm hlt
  have hne : b ≠ a := by
    rintro rfl
    exact hba hlt
  induction entries with
  | nil => simp [insert, hlt, hba, hne]
  | cons e rest ih =>
      rcases e with ⟨key, value⟩
      by_cases hfirst : a < key
      · have hput : insert a x ((key, value) :: rest) = (a, x) :: (key, value) :: rest := by
          simp [insert, hfirst]
        have hbehind : insert b y ((a, x) :: (key, value) :: rest) =
            (a, x) :: insert b y ((key, value) :: rest) := by
          rw [insert, if_neg hba, if_neg hne]
        rw [hput, hbehind]
        by_cases hsecond : b < key
        · simp [insert, hsecond, hlt]
        · by_cases hkey : b = key
          · subst hkey
            simp [insert, hlt]
          · simp [insert, hsecond, hkey, hfirst]
      · have hbefore : ¬b < key := fun h => hfirst (String.lt_trans hlt h)
        by_cases hkey : a = key
        · subst hkey
          simp [insert, hba, hne]
        · have hother : b ≠ key := fun h => hfirst (h ▸ hlt)
          simp [insert, hfirst, hkey, hbefore, hother, ih]

/-- Values that are put under different keys may be put there in either order. -/
theorem Keyed.insert_comm {β : Type} {a b : String} (hne : a ≠ b) (x y : β)
    (entries : List (String × β)) :
    insert a x (insert b y entries) = insert b y (insert a x entries) := by
  by_cases hlt : a < b
  · exact insert_comm_of_lt hlt x y entries
  · by_cases hgt : b < a
    · exact (insert_comm_of_lt hgt y x entries).symm
    · exact absurd (String.le_antisymm (String.not_lt.1 hgt) (String.not_lt.1 hlt)) hne

/-- Two properties may be set in either order. -/
theorem Configuration.set_comm (c : Configuration) {a b : String} (hne : a ≠ b) (x y : Property) :
    (c.set b y).set a x = (c.set a x).set b y := by
  unfold set
  rw [Keyed.insert_comm hne]

namespace Workshop

/-! ## Overrides -/

/-- An override sets a property of the configuration with a name, if there is one. -/
theorem orders_setProperty (name key : String) (value : Property) (w : Workshop) :
    orders ((setProperty name key value).run w).2 =
      (w.catalog, override name key value w.configurations) := by
  cases hconfig : w.configuration? name with
  | some c => rw [run_setProperty hconfig, orders]
  | none =>
      have hsame : override name key value w.configurations = w.configurations := by
        rw [configuration?, List.find?_eq_none] at hconfig
        rw [override, List.map_congr_left (g := id), List.map_id]
        intro c hc
        rw [if_neg (by simpa using hconfig c hc), id]
      have hrun : (setProperty name key value).run w =
          (.error (.component name .notRegistered), w) := by
        rw [setProperty, run_get_bind, hconfig]
        rfl
      rw [hrun, orders, hsame]

/-- Overriding a property under several names sets it wherever one of the names stands. -/
theorem foldl_override (names : List String) (key : String) (value : Property)
    (configs : List Configuration) :
    names.foldl (fun configs name => override name key value configs) configs =
      configs.map fun c => if c.name ∈ names then c.set key value else c := by
  induction names generalizing configs with
  | nil => simp
  | cons name rest ih =>
      rw [List.foldl_cons, ih, override, List.map_map]
      apply List.map_congr_left
      intro c _
      rw [Function.comp_apply]
      by_cases hname : c.name = name
      · have hset : (c.set key value).name = name := hname
        rw [if_pos hname, hset, hname, if_pos List.mem_cons_self, c.set_set, ite_self]
      · rw [if_neg hname]
        simp [hname]

end Workshop

namespace Reproduction

open DependencyOrder (rowName)

variable {directory : Directory} {r : Reproduction}

/-! ## Pointing data sources to a path -/

/-- Configurations with the path of every data source of a catalog set. -/
def relocatedConfigs (catalog : Catalog) (path : String) (configs : List Configuration) :
    List Configuration :=
  configs.map fun c =>
    if catalog.kindOf? c.className = some .dataSource then c.set "path" (.value path) else c

/-- Pointing data sources to a path keeps the names and the classes. -/
theorem map_relocatedConfigs {β : Type} {f : Configuration → β}
    (hf : ∀ c key value, f (c.set key value) = f c) (catalog : Catalog) (path : String)
    (configs : List Configuration) : (relocatedConfigs catalog path configs).map f =
      configs.map f := by
  rw [relocatedConfigs, List.map_map]
  apply List.map_congr_left
  intro c _
  rw [Function.comp_apply]
  split
  · exact hf c _ _
  · rfl

/-- Setting the paths of registered components succeeds. -/
theorem run_relocateAll {path : String} {names : List String} {w : Workshop}
    (hregistered : ∀ name ∈ names, (w.configuration? name).isSome) :
    (relocateAll path names).run w = (.ok (), { w with
      configurations := names.foldl
        (fun configs name => Workshop.override name "path" (.value path) configs) w.configurations
      instances := if names = [] then w.instances else [] }) := by
  induction names generalizing w with
  | nil => rfl
  | cons name rest ih =>
      obtain ⟨c, hc⟩ := Option.isSome_iff_exists.1 (hregistered name List.mem_cons_self)
      rw [relocateAll, run_bind_ok (Workshop.run_setProperty hc), ih]
      · simp
      · intro other hother
        rw [Workshop.configuration?, Workshop.config_set, Option.isSome_map]
        exact hregistered other (List.mem_cons_of_mem _ hother)

/-- Where names are different, pointing the data sources to a path sets the path of each of them and
of nothing else, tells how many there are, and forgets what was made if there are any. -/
theorem run_relocate (path : String)
    (hnodup : (r.workshop.configurations.map Configuration.name).Nodup) :
    (relocate path).run r =
      (.ok (r.workshop.namesOfKind .dataSource).length, { r with workshop := { r.workshop with
        configurations := relocatedConfigs r.workshop.catalog path r.workshop.configurations
        instances :=
          if r.workshop.namesOfKind .dataSource = [] then r.workshop.instances else [] } }) := by
  have hmem : ∀ c ∈ r.workshop.configurations, c.name ∈ r.workshop.namesOfKind .dataSource ↔
      r.workshop.catalog.kindOf? c.className = some .dataSource := by
    intro c hc
    constructor
    · intro hname
      obtain ⟨d, hd, heq⟩ := List.mem_map.1 hname
      rw [List.mem_filter, beq_iff_eq] at hd
      rw [← List.inj_on_of_nodup_map hnodup hd.1 hc heq]
      exact hd.2
    · intro hkind
      exact List.mem_map_of_mem (List.mem_filter.2 ⟨hc, beq_iff_eq.2 hkind⟩)
  have hregistered : ∀ name ∈ r.workshop.namesOfKind .dataSource,
      (r.workshop.configuration? name).isSome := by
    intro name hname
    obtain ⟨c, hc, rfl⟩ := List.mem_map.1 hname
    rw [Workshop.configuration?_of_mem hnodup (List.mem_of_mem_filter hc)]
    rfl
  have hconfigs : relocatedConfigs r.workshop.catalog path r.workshop.configurations =
      (r.workshop.namesOfKind .dataSource).foldl (fun configs name =>
        Workshop.override name "path" (.value path) configs) r.workshop.configurations := by
    rw [Workshop.foldl_override]
    apply List.map_congr_left
    intro c hc
    simp only [hmem c hc]
  rw [relocate, run_get_bind, run_bind_ok (run_inWorkshop_ok (run_relocateAll hregistered)),
    hconfigs]
  rfl

/-! ## Uses -/

/-- An override of a property, a path for the data sources, or a call with the files that are there
at its time. -/
inductive Use where
  | override (name key : String) (value : Property)
  | relocate (path : String)
  | call (files : Directory) (call : Call)

/-- What a use does, whatever it yields. -/
def Use.step : Use → Step Unit
  | .override name key value => inWorkshop (Workshop.setProperty name key value)
  | .relocate path => do
      let _ ← Reproduction.relocate path
      pure ()
  | .call files c => c.step files

/-- The reproduction after a use, whether the use ended well or not. -/
def Use.next (use : Use) (r : Reproduction) : Reproduction :=
  (use.step.run r).2

/-- The reproduction after uses. -/
def afterUses (r : Reproduction) (uses : List Use) : Reproduction :=
  uses.foldl (fun r use => use.next r) r

/-- What a use overrides in configurations. -/
def Use.overridden (catalog : Catalog) : Use → List Configuration → List Configuration
  | .override name key value, configs => Workshop.override name key value configs
  | .relocate path, configs => relocatedConfigs catalog path configs
  | .call _ _, configs => configs

/-- What uses override in configurations. -/
def overridden (catalog : Catalog) (uses : List Use) (configs : List Configuration) :
    List Configuration :=
  uses.foldl (fun configs use => use.overridden catalog configs) configs

/-- Overriding keeps the names and the classes. -/
theorem map_overridden {β : Type} {f : Configuration → β}
    (hf : ∀ c key value, f (c.set key value) = f c) (catalog : Catalog) (uses : List Use)
    (configs : List Configuration) : (overridden catalog uses configs).map f = configs.map f := by
  induction uses generalizing configs with
  | nil => rfl
  | cons use rest ih =>
      have hone : (use.overridden catalog configs).map f = configs.map f := by
        cases use with
        | override name key value => exact Workshop.map_override hf name key value configs
        | relocate path => exact map_relocatedConfigs hf catalog path configs
        | call files call => rfl
      rw [← hone]
      exact ih (use.overridden catalog configs)

/-! ## Counts and overrides -/

/-- Restoring counts after a property was set does not show whether they were restored before. -/
theorem withCount_set (text? : Option String) (c : Configuration) (key : String)
    (value : Property) :
    withCount text? ((withCount text? c).set key value) = withCount text? (c.set key value) := by
  cases text? with
  | none => rfl
  | some text =>
      simp only [withCount]
      by_cases hkey : key = "initial-rng-draws"
      · subst hkey
        rw [Configuration.set_set, Configuration.set_set, Configuration.set_set]
      · rw [← Configuration.set_comm c (Ne.symm hkey), Configuration.set_set]

/-- Restoring counts after a property was set in some configurations does not show whether they were
restored before. -/
theorem restoredConfigs_map_set (rows : List (Nat × Occurrence)) {p : Configuration → Prop}
    [DecidablePred p] (hp : ∀ text? c, p (withCount text? c) ↔ p c) (key : String)
    (value : Property) (configs : List Configuration) :
    restoredConfigs rows ((restoredConfigs rows configs).map fun c =>
        if p c then c.set key value else c) =
      restoredConfigs rows (configs.map fun c => if p c then c.set key value else c) := by
  simp only [restoredConfigs, List.map_map]
  apply List.map_congr_left
  intro c _
  simp only [Function.comp_apply, hp]
  by_cases hc : p c
  · have hname : ∀ d : Configuration, (d.set key value).name = d.name := fun _ => rfl
    simp only [if_pos hc, hname, name_withCount, withCount_set]
  · simp only [if_neg hc, name_withCount, withCount_withCount, Option.or_self]

/-- What a use overrides does not show, under restored counts, whether they were restored
before. -/
theorem restoredConfigs_overridden {rows : List (Nat × Occurrence)} (catalog : Catalog) (use : Use)
    {configs base : List Configuration}
    (h : restoredConfigs rows configs = restoredConfigs rows base) :
    restoredConfigs rows (use.overridden catalog configs) =
      restoredConfigs rows (use.overridden catalog base) := by
  cases use with
  | override name key value =>
      have hp : ∀ text? (c : Configuration), (withCount text? c).name = name ↔ c.name = name := by
        intro text? c
        rw [name_withCount]
      have hshow := restoredConfigs_map_set rows (p := fun c => c.name = name) hp key value
      simp only [Use.overridden, Workshop.override]
      rw [← hshow configs, ← hshow base, h]
  | relocate path =>
      have hp : ∀ text? (c : Configuration),
          catalog.kindOf? (withCount text? c).className = some .dataSource ↔
            catalog.kindOf? c.className = some .dataSource := by
        intro text? c
        rw [className_withCount]
      have hshow := restoredConfigs_map_set rows
        (p := fun c => catalog.kindOf? c.className = some .dataSource) hp "path" (.value path)
      simp only [Use.overridden, relocatedConfigs]
      rw [← hshow configs, ← hshow base, h]
  | call files call => exact h

/-! ## What no call changes -/

/-- What no call of a reproduction changes: the record, the reference, the catalog, and the
configurations as they are with the recorded counts restored. -/
def lasting (r : Reproduction) :
    ModelRecord × Option Model × Catalog × List Configuration :=
  (r.record, r.reference, r.workshop.catalog,
    restoredConfigs (DependencyOrder.ofRecord r.record.record).rows r.workshop.configurations)

theorem record_of_lasting {s : Reproduction} (h : s.lasting = r.lasting) :
    s.record = r.record :=
  congrArg Prod.fst h

/-- Reaching a stage changes nothing that lasts. -/
theorem retains_reach (r : Reproduction) (stage : Stage) : Retains lasting r (reach stage) :=
  .of_modify rfl

/-- What lasts does not depend on what the workshop has made. -/
theorem overlooks_lasting : Overlooks lasting := by
  intro r w h
  obtain ⟨hcatalog, hconfigs⟩ := Prod.mk.inj h
  simp only [lasting, hcatalog, hconfigs]

/-- The count of a row that is restored is there under restored counts. -/
theorem restoredConfigs_override {rows : List (Nat × Occurrence)}
    (hnames : (rows.map rowName).Nodup) {row : Nat × Occurrence} (hrow : row ∈ rows)
    {text : String} (htext : countText? row.2 = some text) (configs : List Configuration) :
    restoredConfigs rows
        (Workshop.override (rowName row) "initial-rng-draws" (.value text) configs) =
      restoredConfigs rows configs := by
  rw [restoredConfigs, restoredConfigs, Workshop.override, List.map_map]
  apply List.map_congr_left
  intro c _
  rw [Function.comp_apply]
  split
  · rename_i hname
    have hset : (c.set "initial-rng-draws" (.value text)).name = rowName row := hname
    rw [hset, hname, restoredText_rowName hnames hrow, htext]
    exact c.set_set _ _ _
  · rfl

/-- Restoring a count changes nothing that lasts. -/
theorem retains_restoreCount {row : Nat × Occurrence}
    (hrow : row ∈ (DependencyOrder.ofRecord r.record.record).rows) {text : String}
    (htext : countText? row.2 = some text) :
    Retains lasting r
      (inWorkshop (Workshop.setProperty (rowName row) "initial-rng-draws" (.value text))) := by
  obtain ⟨hcatalog, hconfigs⟩ := Prod.mk.inj
    (Workshop.orders_setProperty (rowName row) "initial-rng-draws" (.value text) r.workshop)
  have hsame := restoredConfigs_override (DependencyOrder.nodup_rowNames _) hrow htext
    r.workshop.configurations
  rw [Retains, run_inWorkshop]
  simp only [lasting, hcatalog, hconfigs, hsame]

/-- Restoring the counts of the record changes nothing that lasts. -/
theorem retains_restoreCounts {rows : List (Nat × Occurrence)}
    (hrows : ∀ row ∈ rows, row ∈ (DependencyOrder.ofRecord r.record.record).rows) :
    Retains lasting r (restoreCounts rows) := by
  induction rows generalizing r with
  | nil => exact .pure ()
  | cons row rest ih =>
      have hgo : ∀ s : Reproduction, s.lasting = r.lasting →
          Retains lasting s (restoreCounts rest) := by
        intro s hs
        apply ih
        rw [record_of_lasting hs]
        exact fun other hother => hrows other (List.mem_cons_of_mem _ hother)
      rw [restoreCounts]
      split
      · rename_i hcounted
        simp only
        split
        · exact Retains.throw _
        · rename_i count hcount
          have htext : countText? row.2 = some (Primitive.long count).render := by
            rw [countText?, if_pos hcounted, hcount]
            rfl
          split
          · exact Retains.throw _
          · exact (retains_restoreCount (hrows row List.mem_cons_self) htext).bind
              fun _ s hs => hgo s hs
      · exact hgo r rfl

/-! ## Calls -/

/-- Recovering the trainer changes nothing that lasts. -/
theorem retains_recoverTrainer (r : Reproduction) :
    Retains lasting r (recoverTrainer directory) := by
  rw [recoverTrainer]
  apply Retains.get_bind
  apply (retains_ofResult lasting r _).bind
  intro own s hs
  split
  · exact Retains.throw _
  · have hrestore : Retains lasting s
        (restoreCounts (DependencyOrder.ofRecord r.record.record).rows) := by
      apply retains_restoreCounts
      rw [record_of_lasting hs]
      exact fun _ h => h
    apply hrestore.bind
    intro _ t _
    split
    · exact Retains.throw _
    · apply (retains_inWorkshop overlooks_lasting t (Workshop.retains_allOfClass _ _)).bind
      intro found u _
      split
      · exact .throw _
      · exact (retains_reach u _).bind fun _ v _ => .pure _

/-- Recovering the dataset changes nothing that lasts. -/
theorem retains_recoverDataset (r : Reproduction) :
    Retains lasting r (recoverDataset directory) := by
  rw [recoverDataset]
  apply Retains.get_bind
  apply (retains_ofResult lasting r _).bind
  intro recorded s _
  apply (retains_ofResult lasting s _).bind
  intro lineage t _
  apply (retains_ofResult lasting t _).bind
  intro chain u _
  apply (retains_recoverLeaf overlooks_lasting u _ _).bind
  intro source v _
  apply (retains_ofResult lasting v _).bind
  intro replayed v _
  apply (retains_ofResult lasting v _).bind
  intro wrapped v _
  apply (retains_ofResult lasting v _).bind
  intro d v _
  exact (retains_reach v _).bind fun _ w _ => .pure d

/-- Training again changes nothing that lasts. -/
theorem retains_fromRecord (r : Reproduction) (occasion : Occasion) :
    Retains lasting r (fromRecord directory occasion) := by
  rw [fromRecord]
  apply (retains_recoverTrainer r).bind
  intro handle s _
  apply (retains_recoverDataset s).bind
  intro d t _
  apply (retains_inWorkshop overlooks_lasting t (Workshop.retains_train occasion handle d _)).bind
  intro n u _
  exact (retains_reach u _).bind fun _ v _ => .pure n

/-- Training again and comparing changes nothing that lasts. -/
theorem retains_fromModel (r : Reproduction) (occasion : Occasion) :
    Retains lasting r (fromModel directory occasion) := by
  rw [fromModel]
  apply Retains.get_bind
  split
  · exact .throw _
  · apply (retains_fromRecord r occasion).bind
    intro n s _
    split
    · exact .throw _
    · exact (retains_reach s _).bind fun _ t _ => .pure n

theorem retains_call (r : Reproduction) (call : Call) :
    Retains lasting r (call.step directory) := by
  have hwork : ∀ {β : Type} {work : Work β}, Retains Workshop.orders r.workshop work →
      Retains lasting r (inWorkshop work) :=
    fun h => retains_inWorkshop overlooks_lasting r h
  cases call with
  | recoverTrainer => exact (retains_recoverTrainer r).discard
  | recoverDataset => exact (retains_recoverDataset r).discard
  | fromRecord occasion => exact (retains_fromRecord r occasion).discard
  | fromModel occasion => exact (retains_fromModel r occasion).discard
  | lookup name => exact (hwork (Workshop.retains_lookup name _)).discard
  | allOfClass className => exact (hwork (Workshop.retains_allOfClass className _)).discard
  | allOfKind kind => exact (hwork (Workshop.retains_allOfKind kind _)).discard
  | train occasion handle d => exact (hwork (Workshop.retains_train occasion handle d _)).discard

/-! ## What lasts through uses -/

/-- A use overrides what it overrides, and nothing else of what lasts changes. -/
theorem lasting_next (hnodup : (r.workshop.configurations.map Configuration.name).Nodup)
    (use : Use) :
    (use.next r).lasting = (r.record, r.reference, r.workshop.catalog,
      restoredConfigs (DependencyOrder.ofRecord r.record.record).rows
        (use.overridden r.workshop.catalog r.workshop.configurations)) := by
  cases use with
  | override name key value =>
      obtain ⟨hcatalog, hconfigs⟩ := Prod.mk.inj
        (Workshop.orders_setProperty name key value r.workshop)
      have hnext : (Use.override name key value).next r = { r with
          workshop := ((Workshop.setProperty name key value).run r.workshop).2 } := by
        rw [Use.next, Use.step, run_inWorkshop]
      rw [hnext, lasting, hcatalog, hconfigs]
      rfl
  | relocate path =>
      rw [Use.next, Use.step, run_bind_ok (run_relocate path hnodup)]
      rfl
  | call files c => exact retains_call r c

/-- Overrides may be made before the counts are restored. -/
theorem restoredConfigs_foldl_overridden {rows : List (Nat × Occurrence)} (catalog : Catalog)
    (uses : List Use) {configs base : List Configuration}
    (h : restoredConfigs rows configs = restoredConfigs rows base) :
    restoredConfigs rows (overridden catalog uses configs) =
      restoredConfigs rows (overridden catalog uses base) := by
  induction uses generalizing configs base with
  | nil => exact h
  | cons use rest ih => exact ih (restoredConfigs_overridden catalog use h)

/-- Whatever a reproduction is used for, its configurations are, under restored counts, what the
overrides make of the first ones. -/
theorem lasting_afterUses (hnodup : (r.workshop.configurations.map Configuration.name).Nodup)
    (uses : List Use) :
    (afterUses r uses).lasting = (r.record, r.reference, r.workshop.catalog,
      restoredConfigs (DependencyOrder.ofRecord r.record.record).rows
        (overridden r.workshop.catalog uses r.workshop.configurations)) := by
  induction uses generalizing r with
  | nil => rfl
  | cons use rest ih =>
      have hnext := lasting_next hnodup use
      simp only [lasting, Prod.mk.injEq] at hnext
      obtain ⟨hrecord, hreference, hcatalog, hconfigs⟩ := hnext
      have hnames : (use.next r).workshop.configurations.map Configuration.name =
          r.workshop.configurations.map Configuration.name := by
        have hmap := congrArg (List.map Configuration.name) hconfigs
        rw [map_restoredConfigs name_withCount, map_restoredConfigs name_withCount] at hmap
        exact hmap.trans (map_overridden (fun _ _ _ => rfl) _ [use] _)
      have hrest : (afterUses r (use :: rest)).lasting = _ := ih (by rw [hnames]; exact hnodup)
      rw [hrest, hrecord, hreference, hcatalog]
      rw [hrecord] at hconfigs
      rw [restoredConfigs_foldl_overridden _ rest hconfigs]
      rfl

end Reproduction
end Retrace
