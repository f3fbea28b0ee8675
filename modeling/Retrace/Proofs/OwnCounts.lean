import Retrace.Proofs.FirstTrainer
import Retrace.Proofs.ReproductionUses

/-!
# Every trainer has its own count

A tree may record many trainers, nested anywhere and alike to the eye, and their counts are put into
configurations under names that are worked out anew.  Still each configuration of a trainer gets the
count of the object that it was extracted from, and no other property of any configuration changes.

Main results:

- Theorem `ownCounts_restoredConfigs`: restored counts are those of the objects.
- Theorem `ownCounts_of_recoverTrainer`: a recovery that ends well leaves the extracted
  configurations with the overrides made before it, and with the counts of their own objects.
-/

namespace Retrace
namespace Reproduction

open DependencyOrder (rowName)

/-- Whether configurations are those before, with the count of its own object put into the
configuration of each configurable trainer of a tree. -/
structure OwnCounts (root : Record) (before after : List Configuration) : Prop where
  same : after.map (fun c => (c.name, c.className)) = before.map fun c => (c.name, c.className)
  distinct : (after.map Configuration.name).Nodup
  described : ∀ c ∈ after, ∃ o ∈ root.occurrences, o.record.configurable = true ∧
    (DependencyOrder.ofRecord root).nameOf? o = some c.name
  trainer : ∀ o ∈ root.occurrences, o.record.configurable = true → o.record.kind = .trainer →
    ∃ name count c, (DependencyOrder.ofRecord root).nameOf? o = some name ∧
      o.record.long? "train-invocation-count" = some count ∧ 0 ≤ count ∧
      before.find? (fun c => c.name == name) = some c ∧
      after.find? (fun c => c.name == name) =
        some (c.set "initial-rng-draws" (.value (Primitive.long count).render))
  other : ∀ o ∈ root.occurrences, o.record.configurable = true → o.record.kind ≠ .trainer →
    ∃ name c, (DependencyOrder.ofRecord root).nameOf? o = some name ∧
      before.find? (fun c => c.name == name) = some c ∧
      after.find? (fun c => c.name == name) = some c

variable {root : Record} {configs base : List Configuration}

/-- A configurable object has a configuration, in which its own count is restored. -/
theorem exists_find?_restoredConfigs (hextract : root.extract = .ok configs)
    (hnames : base.map Configuration.name = configs.map Configuration.name) {o : Occurrence}
    (ho : o ∈ root.occurrences) (hconf : o.record.configurable = true) :
    ∃ name c, (DependencyOrder.ofRecord root).nameOf? o = some name ∧
      base.find? (fun c => c.name == name) = some c ∧
      (restoredConfigs (DependencyOrder.ofRecord root).rows base).find?
        (fun c => c.name == name) = some (withCount (countText? o) c) := by
  obtain ⟨row, hrow, rfl⟩ := DependencyOrder.exists_mem_rows ho
  have hregistered := registered_of_extract hextract (w := .holding .standard base) hnames
  obtain ⟨c, hc⟩ := Option.isSome_iff_exists.1 (hregistered row hrow hconf)
  have hfound : base.find? (fun c => c.name == rowName row) = some c := hc
  refine ⟨rowName row, c, (DependencyOrder.nameOf?_of_mem_rows hrow).2, hfound, ?_⟩
  rw [find?_restoredConfigs, hfound,
    restoredText_rowName (DependencyOrder.nodup_rowNames root) hrow]
  rfl

/-- Where no count is at fault a configurable trainer has one that can be restored. -/
theorem exists_count_of_findSome? {rows : List (Nat × Occurrence)}
    (hfaults : rows.findSome? countFault? = none) {row : Nat × Occurrence} (hrow : row ∈ rows)
    (hconf : row.2.record.configurable = true) (hkind : row.2.record.kind = .trainer) :
    ∃ count, row.2.record.long? "train-invocation-count" = some count ∧ 0 ≤ count ∧
      countText? row.2 = some (Primitive.long count).render := by
  have hfault := List.findSome?_eq_none_iff.1 hfaults row hrow
  rw [countFault?, if_pos ⟨hkind, hconf⟩] at hfault
  cases hcount : row.2.record.long? "train-invocation-count" with
  | none => simp [hcount] at hfault
  | some count =>
      simp only [hcount, ite_eq_right_iff, reduceCtorEq, imp_false] at hfault
      refine ⟨count, rfl, Int64.not_lt.1 hfault, ?_⟩
      rw [countText?, if_pos ⟨hkind, hconf⟩, hcount]
      rfl

/-- Restored counts, where none is at fault, are those of the objects. -/
theorem ownCounts_restoredConfigs (hextract : root.extract = .ok configs)
    (hsame : base.map (fun c => (c.name, c.className)) =
      configs.map fun c => (c.name, c.className))
    (hfaults : (DependencyOrder.ofRecord root).rows.findSome? countFault? = none) :
    OwnCounts root base (restoredConfigs (DependencyOrder.ofRecord root).rows base) := by
  have hnames : base.map Configuration.name = configs.map Configuration.name := by
    have hmap := congrArg (List.map Prod.fst) hsame
    rw [List.map_map, List.map_map] at hmap
    exact hmap
  have hrestored := map_restoredConfigs name_withCount (DependencyOrder.ofRecord root).rows base
  constructor
  · exact map_restoredConfigs (by simp) _ _
  · rw [hrestored, hnames]
    exact Record.nodup_configurationNames hextract
  · intro c hc
    have hrow : c.name ∈ (DependencyOrder.configurableRows
        (DependencyOrder.ofRecord root).rows).map rowName := by
      have hmap := congrArg (List.map Prod.fst) (Extraction.map_configurations hextract)
      rw [List.map_map, List.map_map] at hmap
      change configs.map Configuration.name = _ at hmap
      change _ = List.map rowName _ at hmap
      rw [← hmap, ← hnames, ← hrestored]
      exact List.mem_map_of_mem hc
    obtain ⟨row, hmem, hname⟩ := List.mem_map.1 hrow
    obtain ⟨hmem, hconf⟩ := List.mem_filter.1 hmem
    obtain ⟨hoccurs, hnamed⟩ := DependencyOrder.nameOf?_of_mem_rows hmem
    exact ⟨row.2, hoccurs, hconf, by rw [hnamed, hname]⟩
  · intro o ho hconf hkind
    obtain ⟨name, c, hname, hbefore, hafter⟩ :=
      exists_find?_restoredConfigs hextract hnames ho hconf
    obtain ⟨row, hrow, rfl⟩ := DependencyOrder.exists_mem_rows ho
    obtain ⟨count, hcount, hsign, htext⟩ := exists_count_of_findSome? hfaults hrow hconf hkind
    rw [htext] at hafter
    exact ⟨name, count, c, hname, hcount, hsign, hbefore, hafter⟩
  · intro o ho hconf hkind
    obtain ⟨name, c, hname, hbefore, hafter⟩ :=
      exists_find?_restoredConfigs hextract hnames ho hconf
    have htext : countText? o = none := by
      rw [countText?, if_neg fun h => hkind h.1]
    rw [htext] at hafter
    exact ⟨name, c, hname, hbefore, hafter⟩

/-! ## After a recovery -/

/-- A trainer that is recovered leaves the configurations with all counts restored. -/
theorem configurations_of_recoverTrainer {directory : Directory} {r s : Reproduction}
    {handle : Nat}
    (hregistered : Registered (DependencyOrder.ofRecord r.record.record).rows r.workshop)
    (h : (recoverTrainer directory).run r = (.ok handle, s)) :
    (DependencyOrder.ofRecord r.record.record).rows.findSome? countFault? = none ∧
      s.workshop.configurations =
        restoredConfigs (DependencyOrder.ofRecord r.record.record).rows
          r.workshop.configurations := by
  obtain ⟨own, found, hown, hconf, hall, -, -⟩ := exists_of_run_recoverTrainer hregistered h
  constructor
  · rw [run_recoverTrainer_restored hregistered hown hconf] at h
    split at h
    · exact absurd (Prod.mk.inj h).1 (by simp)
    · assumption
  · have horders : Retains Workshop.orders
        (restoredWorkshop (DependencyOrder.ofRecord r.record.record).rows r.workshop)
        (Workshop.allOfClass directory own.record.className) :=
      Workshop.retains_allOfClass _ _
    rw [Retains, hall] at horders
    exact (Prod.mk.inj horders).2

/-- Whatever a reproduction was used for before, a recovery of its trainer that ends well leaves the
configurations that were extracted from the record, with the overrides made before, and with the
count of its own object in the configuration of each configurable trainer. -/
theorem ownCounts_of_recoverTrainer {m : ModelRecord} {catalog : Catalog} {r s : Reproduction}
    (hr : ofRecord m catalog = .ok r) (reference : Option Model) (uses : List Use)
    {directory : Directory} {handle : Nat}
    (h : (recoverTrainer directory).run (afterUses { r with reference := reference } uses) =
      (.ok handle, s)) :
    ∃ configs, m.record.extract = .ok configs ∧
      OwnCounts m.record (overridden catalog uses configs) s.workshop.configurations := by
  obtain ⟨configs, hextract, rfl⟩ := eq_of_ofRecord hr
  refine ⟨configs, hextract, ?_⟩
  have hlasting := lasting_afterUses
    (r := { prepared catalog m none configs with reference := reference })
    (Record.nodup_configurationNames hextract) uses
  generalize afterUses { prepared catalog m none configs with reference := reference } uses = u
    at h hlasting
  simp only [lasting, Prod.mk.injEq] at hlasting
  obtain ⟨hrecord, -, -, hconfigs⟩ := hlasting
  rw [hrecord] at hconfigs
  have hsame := map_overridden (f := fun c => (c.name, c.className)) (fun _ _ _ => rfl) catalog uses
    configs
  have hnames : u.workshop.configurations.map Configuration.name =
      configs.map Configuration.name := by
    rw [← map_restoredConfigs name_withCount (DependencyOrder.ofRecord m.record).rows]
    exact (congrArg (List.map Configuration.name) hconfigs).trans
      ((map_restoredConfigs name_withCount _ _).trans
        (map_overridden (fun _ _ _ => rfl) catalog uses configs))
  obtain ⟨hfaults, hafter⟩ := configurations_of_recoverTrainer
    (by rw [hrecord]; exact registered_of_extract hextract hnames) h
  rw [hrecord] at hfaults hafter
  rw [hafter]
  exact (congrArg (OwnCounts m.record _) hconfigs).mpr
    (ownCounts_restoredConfigs hextract hsame hfaults)

/-- Overrides of the two trainers of the tuned model, before and after a recovery. -/
def tunedUses : List Use :=
  [.override "svmtrainer-1" "seed" (.value "9"),
    .override "svmtrainer-4" "initial-rng-draws" (.value "40"), .call .empty .recoverTrainer,
    .relocate "elsewhere", .override "svmtrainer-1" "initial-rng-draws" (.value "x")]

/-- The two trainers of the tuned model get their own counts back, one of them with another seed. -/
theorem ownCounts_of_recoverTrainer_tunedModel :
    ∃ r s handle, ofRecord tunedModel .standard = .ok r ∧
      (recoverTrainer .empty).run (afterUses { r with reference := none } tunedUses) =
        (.ok handle, s) ∧
      (s.workshop.configuration? "svmtrainer-1").map (fun c =>
        (c.property? "initial-rng-draws", c.property? "seed")) =
          some (some (.value "0"), some (.value "9")) ∧
      (s.workshop.configuration? "svmtrainer-4").map (fun c =>
        (c.property? "initial-rng-draws", c.property? "seed")) =
          some (some (.value "2"), some (.value "12345")) ∧
      ∃ configs, tunedModel.record.extract = .ok configs ∧
        OwnCounts tunedModel.record (overridden .standard tunedUses configs)
          s.workshop.configurations := by
  have hruns : ((ofRecord tunedModel .standard).toOption.any fun r =>
      let (found, s) :=
        (recoverTrainer .empty).run (afterUses { r with reference := none } tunedUses)
      found.isOk &&
        ((s.workshop.configuration? "svmtrainer-1").map (fun c =>
          (c.property? "initial-rng-draws", c.property? "seed")) ==
            some (some (.value "0"), some (.value "9")) &&
        (s.workshop.configuration? "svmtrainer-4").map (fun c =>
          (c.property? "initial-rng-draws", c.property? "seed")) ==
            some (some (.value "2"), some (.value "12345")))) = true := by decide +kernel
  rw [Option.any_eq_true] at hruns
  obtain ⟨r, hr, hruns⟩ := hruns
  rw [toOption_eq_some_iff] at hr
  rcases hrun : (recoverTrainer .empty).run (afterUses { r with reference := none } tunedUses) with
    ⟨found, s⟩
  rw [hrun] at hruns
  simp only [Bool.and_eq_true, beq_iff_eq] at hruns
  obtain ⟨hok, htuner, hown⟩ := hruns
  cases found with
  | error e => simp [Except.isOk, Except.toBool] at hok
  | ok handle =>
      exact ⟨r, s, handle, hr, hrun, htuner, hown,
        ownCounts_of_recoverTrainer hr none tunedUses hrun⟩

end Reproduction
end Retrace
