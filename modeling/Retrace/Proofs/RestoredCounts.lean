import Retrace.Proofs.DatasetRecovery

/-!
# Restored counts

Before a trainer is made anew, the count that is recorded for each configurable trainer of the tree
is put into its configuration.  Whether this succeeds depends on the tree alone, and so does what is
put there: doing it again changes nothing.

Main results:

- Theorem `run_restoreCounts_eq`: what the restoring of counts does to a workshop.
- Theorem `find?_restoredConfigs`: each configuration has the count of its own object.
- Theorem `restoredConfigs_restoredConfigs`: restoring twice is restoring once.
- Theorem `run_recoverTrainer_restored`: the recovery of a trainer after its counts are restored.
-/

namespace Retrace

/-- Of two values that are put under one key the second one stays. -/
theorem Keyed.insert_insert {β : Type} (key : String) (a b : β) (entries : List (String × β)) :
    insert key b (insert key a entries) = insert key b entries := by
  have hirrefl : ¬key < key := String.lt_irrefl key
  induction entries with
  | nil => simp [insert]
  | cons e rest ih =>
      rw [insert]
      by_cases hlt : key < e.1
      · simp [insert, hlt]
      · by_cases heq : key = e.1
        · rw [if_neg hlt, if_pos heq, insert, insert, if_neg hirrefl, if_pos rfl, if_neg hlt,
            if_pos heq]
        · rw [if_neg hlt, if_neg heq, insert, insert, if_neg hlt, if_neg heq, if_neg hlt,
            if_neg heq, ih]

/-- Of two values of a property the last one stays. -/
theorem Configuration.set_set (c : Configuration) (key : String) (a b : Property) :
    (c.set key a).set key b = c.set key b := by
  unfold set
  rw [Keyed.insert_insert]

namespace Reproduction

open DependencyOrder (rowName)

/-! ## Recorded counts -/

/-- Why the count in a row cannot be restored, if it cannot. -/
def countFault? (row : Nat × Occurrence) : Option Error :=
  if row.2.record.kind = .trainer ∧ row.2.record.configurable then
    match row.2.record.long? "train-invocation-count" with
    | none => some (.trainer (.noCount (rowName row)))
    | some count =>
        if count < 0 then some (.trainer (.negativeCount (rowName row) count)) else none
  else none

/-- The text of the count that is restored for an object, if one is. -/
def countText? (o : Occurrence) : Option String :=
  if o.record.kind = .trainer ∧ o.record.configurable then
    (o.record.long? "train-invocation-count").map fun count => (Primitive.long count).render
  else none

/-- A configuration with the text of a count put into it, if there is one. -/
def withCount (text? : Option String) (c : Configuration) : Configuration :=
  match text? with
  | none => c
  | some text => c.set "initial-rng-draws" (.value text)

/-- The text of the count that rows restore under a name, the last row going first. -/
def restoredText : List (Nat × Occurrence) → String → Option String
  | [], _ => none
  | row :: rest, name =>
      (restoredText rest name).or (if rowName row = name then countText? row.2 else none)

/-- Configurations with the counts of rows restored. -/
def restoredConfigs (rows : List (Nat × Occurrence)) (configs : List Configuration) :
    List Configuration :=
  configs.map fun c => withCount (restoredText rows c.name) c

/-- Whether the count of some row is restored. -/
def restoresAny (rows : List (Nat × Occurrence)) : Bool :=
  rows.any fun row => (countText? row.2).isSome

/-- A workshop with the counts of rows restored: what was made is forgotten if there is one. -/
def restoredWorkshop (rows : List (Nat × Occurrence)) (w : Workshop) : Workshop :=
  { w with
    configurations := restoredConfigs rows w.configurations
    instances := if restoresAny rows then [] else w.instances }

/-- The rows before the first one whose count cannot be restored. -/
def restorable (rows : List (Nat × Occurrence)) : List (Nat × Occurrence) :=
  rows.takeWhile fun row => (countFault? row).isNone

@[simp] theorem name_withCount (text? : Option String) (c : Configuration) :
    (withCount text? c).name = c.name := by
  cases text? <;> rfl

@[simp] theorem className_withCount (text? : Option String) (c : Configuration) :
    (withCount text? c).className = c.className := by
  cases text? <;> rfl

/-- The first of two counts stays if it is put there last. -/
theorem withCount_withCount (a b : Option String) (c : Configuration) :
    withCount a (withCount b c) = withCount (a.or b) c := by
  cases a with
  | none => rfl
  | some a =>
      cases b with
      | none => rfl
      | some b => exact c.set_set _ _ _

/-- Restoring keeps the names and the classes. -/
theorem map_restoredConfigs {β : Type} {f : Configuration → β}
    (hf : ∀ text? c, f (withCount text? c) = f c) (rows : List (Nat × Occurrence))
    (configs : List Configuration) : (restoredConfigs rows configs).map f = configs.map f := by
  rw [restoredConfigs, List.map_map]
  apply List.map_congr_left
  intro c _
  exact hf _ c

/-! ## Restoring -/

theorem restoredWorkshop_nil (w : Workshop) : restoredWorkshop [] w = w := by
  simp [restoredWorkshop, restoredConfigs, restoredText, restoresAny, withCount]

/-- Restoring the count in one row overrides a property if there is a count. -/
theorem restoredWorkshop_singleton (row : Nat × Occurrence) (w : Workshop) :
    restoredWorkshop [row] w =
      match countText? row.2 with
      | none => w
      | some text => { w with
          configurations :=
            Workshop.override (rowName row) "initial-rng-draws" (.value text) w.configurations
          instances := [] } := by
  unfold restoredWorkshop restoresAny restoredConfigs
  cases htext : countText? row.2 with
  | none => simp [restoredText, htext, withCount]
  | some text =>
      have hconfigs : w.configurations.map (fun c => withCount (restoredText [row] c.name) c) =
          Workshop.override (rowName row) "initial-rng-draws" (.value text) w.configurations := by
        apply List.map_congr_left
        intro c _
        rw [restoredText, restoredText, htext, Option.none_or]
        by_cases hname : c.name = rowName row
        · rw [if_pos hname, if_pos hname.symm]
          rfl
        · rw [if_neg hname, if_neg (Ne.symm hname)]
          rfl
      rw [hconfigs]
      simp [htext]

/-- Restoring the counts of rows begins with the first row. -/
theorem restoredWorkshop_cons (row : Nat × Occurrence) (rest : List (Nat × Occurrence))
    (w : Workshop) :
    restoredWorkshop (row :: rest) w = restoredWorkshop rest (restoredWorkshop [row] w) := by
  have hconfigs : restoredConfigs (row :: rest) w.configurations =
      restoredConfigs rest (restoredConfigs [row] w.configurations) := by
    unfold restoredConfigs
    rw [List.map_map]
    apply List.map_congr_left
    intro c _
    rw [Function.comp_apply, name_withCount, withCount_withCount, restoredText, restoredText,
      restoredText, Option.none_or]
  have hinstances : (if restoresAny (row :: rest) then [] else w.instances) =
      if restoresAny rest then [] else if restoresAny [row] then [] else w.instances := by
    have hany : restoresAny (row :: rest) = (restoresAny [row] || restoresAny rest) := by
      simp [restoresAny]
    rw [hany]
    cases restoresAny [row] <;> cases restoresAny rest <;> rfl
  unfold restoredWorkshop
  rw [hconfigs, hinstances]

/-- Whether the configurable trainers of rows are registered under their names. -/
def Registered (rows : List (Nat × Occurrence)) (w : Workshop) : Prop :=
  ∀ row ∈ rows, row.2.record.configurable = true → (w.configuration? (rowName row)).isSome

/-- Rows stay registered as long as the names do. -/
theorem Registered.of_map_name {rows : List (Nat × Occurrence)} {w v : Workshop}
    (h : Registered rows w)
    (hnames : v.configurations.map Configuration.name = w.configurations.map Configuration.name) :
    Registered rows v := by
  intro row hrow hconf
  have hfound := h row hrow hconf
  rw [Workshop.configuration?, List.find?_isSome] at hfound ⊢
  obtain ⟨c, hc, hname⟩ := hfound
  have hmem : c.name ∈ v.configurations.map Configuration.name := by
    rw [hnames]
    exact List.mem_map_of_mem hc
  obtain ⟨d, hd, hdname⟩ := List.mem_map.1 hmem
  exact ⟨d, hd, by rw [hdname]; exact hname⟩

/-- Restoring counts restores the one in the first row or ends with what is wrong with it. -/
theorem run_restoreCounts_cons {row : Nat × Occurrence} {rest : List (Nat × Occurrence)}
    {r : Reproduction} (hregistered : Registered [row] r.workshop) :
    (restoreCounts (row :: rest)).run r =
      match countFault? row with
      | some e => (.error e, r)
      | none =>
          (restoreCounts rest).run { r with workshop := restoredWorkshop [row] r.workshop } := by
  rcases row with ⟨p, o⟩
  rw [restoreCounts, restoredWorkshop_singleton]
  by_cases hcounted : o.record.kind = .trainer ∧ o.record.configurable = true
  · rw [if_pos hcounted]
    cases hcount : o.record.long? "train-invocation-count" with
    | none =>
        simp only [countFault?, hcounted, hcount, and_self, if_true]
        rfl
    | some count =>
        by_cases hsign : count < 0
        · simp only [countFault?, hcounted, hcount, hsign, and_self, if_true]
          rfl
        · have htext : countText? o = some (Primitive.long count).render := by
            simp [countText?, hcounted, hcount]
          obtain ⟨c, hconfig⟩ := Option.isSome_iff_exists.1
            (hregistered (p, o) List.mem_cons_self hcounted.2)
          have hset : (Workshop.setProperty (componentName o.record.className p)
              "initial-rng-draws" (.value (Primitive.long count).render)).run r.workshop = _ :=
            Workshop.run_setProperty hconfig
          simp only [countFault?, hcounted, hcount, hsign, and_self, if_true, if_false, htext]
          rw [run_bind_ok (run_inWorkshop_ok hset)]
          rfl
  · have htext : countText? o = none := by
      simp [countText?, hcounted]
    have hfault : countFault? (p, o) = none := by
      simp [countFault?, hcounted]
    simp only [hfault, htext]
    rw [if_neg hcounted]

/-- Restoring counts puts them into the configurations up to the first one that cannot be restored,
and ends with what is wrong with that one. -/
theorem run_restoreCounts_eq {rows : List (Nat × Occurrence)} {r : Reproduction}
    (hregistered : Registered rows r.workshop) :
    (restoreCounts rows).run r =
      (match rows.findSome? countFault? with
        | none => .ok ()
        | some e => .error e,
        { r with workshop := restoredWorkshop (restorable rows) r.workshop }) := by
  induction rows generalizing r with
  | nil =>
      have hnone : restorable [] = [] := rfl
      rw [hnone, restoredWorkshop_nil]
      rfl
  | cons row rest ih =>
      have hfirst : Registered [row] r.workshop := by
        intro other hother
        rw [List.mem_singleton.1 hother]
        exact hregistered row List.mem_cons_self
      rw [run_restoreCounts_cons hfirst, List.findSome?_cons]
      cases hfault : countFault? row with
      | some e =>
          have hstop : restorable (row :: rest) = [] := by
            simp [restorable, hfault]
          rw [hstop, restoredWorkshop_nil]
      | none =>
          have hgo : restorable (row :: rest) = row :: restorable rest := by
            simp [restorable, hfault]
          rw [hgo, restoredWorkshop_cons row (restorable rest)]
          apply ih
          apply Registered.of_map_name (w := r.workshop)
          · intro other hother
            exact hregistered other (List.mem_cons_of_mem _ hother)
          · exact map_restoredConfigs name_withCount _ _

/-! ## What was restored -/

/-- Each configuration has the count that rows restore under its name. -/
theorem find?_restoredConfigs (rows : List (Nat × Occurrence)) (configs : List Configuration)
    (name : String) :
    (restoredConfigs rows configs).find? (fun c => c.name == name) =
      (configs.find? fun c => c.name == name).map (withCount (restoredText rows name)) := by
  unfold restoredConfigs
  induction configs with
  | nil => rfl
  | cons c rest ih =>
      rw [List.map_cons, List.find?_cons, List.find?_cons, name_withCount]
      by_cases hname : c.name = name
      · simp [hname]
      · rw [beq_eq_false_iff_ne.2 hname]
        exact ih

/-- Rows with different names restore under the name of a row the count of its object. -/
theorem restoredText_rowName {rows : List (Nat × Occurrence)} (hnames : (rows.map rowName).Nodup)
    {row : Nat × Occurrence} (hrow : row ∈ rows) :
    restoredText rows (rowName row) = countText? row.2 := by
  have hnone : ∀ (rest : List (Nat × Occurrence)) (name : String), name ∉ rest.map rowName →
      restoredText rest name = none := by
    intro rest name hname
    induction rest with
    | nil => rfl
    | cons other rest ih =>
        rw [List.map_cons, List.mem_cons, not_or] at hname
        rw [restoredText, ih hname.2, if_neg (Ne.symm hname.1)]
        rfl
  induction rows with
  | nil => simp at hrow
  | cons other rest ih =>
      rw [List.map_cons, List.nodup_cons] at hnames
      rw [restoredText]
      rcases List.mem_cons.1 hrow with rfl | hrow
      · rw [hnone rest _ hnames.1, if_pos rfl]
        rfl
      · have hne : rowName other ≠ rowName row := by
          intro heq
          exact hnames.1 (heq ▸ List.mem_map_of_mem hrow)
        rw [ih hnames.2 hrow, if_neg hne, Option.or_none]

/-- Restoring twice is restoring once. -/
theorem restoredConfigs_restoredConfigs (rows : List (Nat × Occurrence))
    (configs : List Configuration) :
    restoredConfigs rows (restoredConfigs rows configs) = restoredConfigs rows configs := by
  unfold restoredConfigs
  rw [List.map_map]
  apply List.map_congr_left
  intro c _
  rw [Function.comp_apply, name_withCount, withCount_withCount, Option.or_self]

/-- Once a trainer was restored nothing that was made is left. -/
theorem instances_restoredWorkshop {rows : List (Nat × Occurrence)}
    (hfaults : rows.findSome? countFault? = none) {row : Nat × Occurrence} (hrow : row ∈ rows)
    (hkind : row.2.record.kind = .trainer) (hconf : row.2.record.configurable = true)
    (w : Workshop) : (restoredWorkshop rows w).instances = [] := by
  have hfault := List.findSome?_eq_none_iff.1 hfaults row hrow
  have htext : (countText? row.2).isSome = true := by
    cases hcount : row.2.record.long? "train-invocation-count" with
    | none => simp [countFault?, hkind, hconf, hcount] at hfault
    | some count => simp [countText?, hkind, hconf, hcount]
  have hany : restoresAny rows = true := List.any_eq_true.2 ⟨row, hrow, htext⟩
  rw [restoredWorkshop, hany]
  rfl

/-- All rows are restorable if no count is at fault. -/
theorem restorable_eq_self {rows : List (Nat × Occurrence)}
    (hfaults : rows.findSome? countFault? = none) : restorable rows = rows := by
  rw [restorable, List.takeWhile_eq_self_iff]
  intro row hrow
  rw [List.findSome?_eq_none_iff.1 hfaults row hrow]
  rfl

/-- The configurations that were extracted from a tree are those of its rows. -/
theorem registered_of_extract {root : Record} {configs : List Configuration}
    (h : root.extract = .ok configs) {w : Workshop}
    (hnames : w.configurations.map Configuration.name = configs.map Configuration.name) :
    Registered (DependencyOrder.ofRecord root).rows w := by
  intro row hrow hconf
  have hkeys := congrArg (List.map Prod.fst) (Extraction.map_configurations h)
  rw [List.map_map, List.map_map] at hkeys
  have hmem : rowName row ∈ w.configurations.map Configuration.name := by
    rw [hnames]
    change configs.map Configuration.name = _ at hkeys
    rw [hkeys]
    exact List.mem_map_of_mem (f := Prod.fst ∘ fun row : Nat × Occurrence =>
      (rowName row, row.2.record.className)) (List.mem_filter.2 ⟨hrow, hconf⟩)
  obtain ⟨c, hc, hname⟩ := List.mem_map.1 hmem
  rw [Workshop.configuration?, List.find?_isSome]
  exact ⟨c, hc, by simpa using hname⟩

/-! ## Recovering -/

/-- Work in the workshop changes the workshop only. -/
theorem run_inWorkshop {β : Type} (work : Work β) (r : Reproduction) :
    (inWorkshop work).run r =
      ((work.run r.workshop).1, { r with workshop := (work.run r.workshop).2 }) := by
  rw [inWorkshop, run_get_bind]
  rcases hrun : work.run r.workshop with ⟨found, w⟩
  cases found <;> rfl

/-- What is left to do of the recovery of a trainer when the counts were restored. -/
def recoverRestored (directory : Directory) (className : String) (w : Workshop) :
    Result Nat × Workshop :=
  if (w.catalog.entry? className).isNone then (.error (.trainer (.notRegistered className)), w)
  else
    match (Workshop.allOfClass directory className).run w with
    | (.error e, w) => (.error e, w)
    | (.ok found, w) =>
        match firstTrainer found with
        | none => (.error (.trainer (.noComponent className)), w)
        | some handle => (.ok handle, w)

/-- With restored counts a trainer that is recovered is the first one of the components found. -/
theorem exists_of_recoverRestored {directory : Directory} {className : String} {w v : Workshop}
    {handle : Nat} (h : recoverRestored directory className w = (.ok handle, v)) :
    ∃ found, (Workshop.allOfClass directory className).run w = (.ok found, v) ∧
      firstTrainer found = some handle := by
  rw [recoverRestored] at h
  split at h
  · exact absurd (Prod.mk.inj h).1 (by simp)
  · split at h
    · exact absurd (Prod.mk.inj h).1 (by simp)
    · rename_i found u hall
      split at h
      · exact absurd (Prod.mk.inj h).1 (by simp)
      · rename_i first hfirst
        obtain ⟨hsame, rfl⟩ := Prod.mk.inj h
        exact ⟨found, hall, hfirst.trans (congrArg some (Except.ok.inj hsame))⟩

/-- The recovery of a trainer, when it has a configuration, restores the counts and then takes the
first trainer of the class. -/
theorem run_recoverTrainer_restored {directory : Directory} {r : Reproduction} {own : Occurrence}
    (hregistered : Registered (DependencyOrder.ofRecord r.record.record).rows r.workshop)
    (hown : r.record.trainer = .ok own) (hconf : own.record.configurable = true) :
    (recoverTrainer directory).run r =
      match (DependencyOrder.ofRecord r.record.record).rows.findSome? countFault? with
      | some e => (.error e, { r with
          workshop := restoredWorkshop
            (restorable (DependencyOrder.ofRecord r.record.record).rows) r.workshop })
      | none =>
          match recoverRestored directory own.record.className
            (restoredWorkshop (DependencyOrder.ofRecord r.record.record).rows r.workshop) with
          | (.error e, w) => (.error e, { r with workshop := w })
          | (.ok handle, w) =>
              (.ok handle, { r with workshop := w, stage := .trainerRecovered }) := by
  have hrestore := run_restoreCounts_eq hregistered
  rw [recoverTrainer, run_get_bind, hown]
  simp only [Except.mapError]
  rw [run_bind_ok (run_ofResult_ok own r)]
  simp only [hconf, Bool.not_true, Bool.false_eq_true, if_false]
  cases hfaults : (DependencyOrder.ofRecord r.record.record).rows.findSome? countFault? with
  | some e =>
      rw [hfaults] at hrestore
      exact run_bind_error hrestore
  | none =>
      rw [hfaults, restorable_eq_self hfaults] at hrestore
      rw [run_bind_ok hrestore, recoverRestored]
      by_cases hentry : (r.workshop.catalog.entry? own.record.className).isNone = true
      · have hsame : ((restoredWorkshop (DependencyOrder.ofRecord r.record.record).rows
            r.workshop).catalog.entry? own.record.className).isNone = true := hentry
        rw [if_pos hentry, if_pos hsame]
        rfl
      · have hsame : ¬((restoredWorkshop (DependencyOrder.ofRecord r.record.record).rows
            r.workshop).catalog.entry? own.record.className).isNone = true := hentry
        rw [if_neg hentry, if_neg hsame]
        rcases hall : (Workshop.allOfClass directory own.record.className).run (restoredWorkshop
          (DependencyOrder.ofRecord r.record.record).rows r.workshop) with ⟨found, w⟩
        cases found with
        | error e => exact run_bind_error (by rw [run_inWorkshop, hall])
        | ok found =>
            rw [run_bind_ok (run_inWorkshop_ok hall)]
            simp only
            cases firstTrainer found <;> rfl

/-- Without a recorded trainer none is recovered. -/
theorem run_recoverTrainer_of_error {directory : Directory} {r : Reproduction}
    {fault : ExtractionFault} (h : r.record.trainer = .error fault) :
    (recoverTrainer directory).run r = (.error (.trainerCause (.extraction fault)), r) := by
  rw [recoverTrainer, run_get_bind, h]
  exact run_bind_error rfl

/-- A trainer without its configuration is not recovered. -/
theorem run_recoverTrainer_of_not_configurable {directory : Directory} {r : Reproduction}
    {own : Occurrence} (hown : r.record.trainer = .ok own)
    (hconf : own.record.configurable = false) :
    (recoverTrainer directory).run r =
      (.error (.trainer (.notConfigured own.record.className)), r) := by
  rw [recoverTrainer, run_get_bind, hown, Except.mapError, run_bind_ok (run_ofResult_ok own r)]
  simp only [hconf, Bool.not_false, if_true]
  rfl

/-- A trainer that is recovered is the first one of the components of its class. -/
theorem exists_of_run_recoverTrainer {directory : Directory} {r s : Reproduction} {handle : Nat}
    (hregistered : Registered (DependencyOrder.ofRecord r.record.record).rows r.workshop)
    (h : (recoverTrainer directory).run r = (.ok handle, s)) :
    ∃ own found, r.record.trainer = .ok own ∧ own.record.configurable = true ∧
      (Workshop.allOfClass directory own.record.className).run
          (restoredWorkshop (DependencyOrder.ofRecord r.record.record).rows r.workshop) =
        (.ok found, s.workshop) ∧
      firstTrainer found = some handle ∧ s.record = r.record := by
  obtain ⟨own, hown, hconf⟩ : ∃ own, r.record.trainer = .ok own ∧
      own.record.configurable = true := by
    cases hown : r.record.trainer with
    | error fault =>
        rw [run_recoverTrainer_of_error hown] at h
        exact absurd (Prod.mk.inj h).1 (by simp)
    | ok own =>
        cases hconf : own.record.configurable with
        | true => exact ⟨own, rfl, hconf⟩
        | false =>
            rw [run_recoverTrainer_of_not_configurable hown hconf] at h
            exact absurd (Prod.mk.inj h).1 (by simp)
  rw [run_recoverTrainer_restored hregistered hown hconf] at h
  split at h
  · exact absurd (Prod.mk.inj h).1 (by simp)
  · split at h
    · exact absurd (Prod.mk.inj h).1 (by simp)
    · rename_i hrecover
      obtain ⟨hhandle, rfl⟩ := Prod.mk.inj h
      obtain rfl := Except.ok.inj hhandle
      obtain ⟨found, hall, hfirst⟩ := exists_of_recoverRestored hrecover
      exact ⟨own, found, hown, hconf, hall, hfirst, rfl⟩

end Reproduction
end Retrace
