import Retrace.Proofs.CraftedWorkshop
import Retrace.Proofs.RestoredCounts

/-!
# Which trainer is recovered

The record of a model names its trainer by a place in the tree, and the recovery asks the workshop
for the trainers of its class.  So the trainer that is recovered is the one whose object is the
first of that class in dependency order.  It is made from the configuration of that object, with the
count of that object restored, whatever the catalog makes of it.  It is the recorded trainer exactly
if no other configurable object of the class stands before that.

Main results:

- Theorem `IsFirst.unique`: one object is the first of its class.
- Theorem `recoverTrainer_first_of_class`: the recovered trainer was made for the first object of
  the class.
- Theorem `recoverTrainer_not_own`: it need not have been made for the recorded trainer.
-/

namespace Retrace
namespace Reproduction

open DependencyOrder (rowName)

/-! ## Objects of a class -/

/-- Whether an object can be rebuilt as a component of a class. -/
def Rebuilds (className : String) (o : Occurrence) : Prop :=
  o.record.configurable = true ∧ o.record.className = className

/-- Whether the object at a position is the first one of a tree that can be rebuilt as a component
of a class. -/
structure IsFirst (root : Record) (className : String) (position : Nat) (o : Occurrence) :
    Prop where
  stands : (DependencyOrder.ofRecord root).get? position = some o
  rebuilds : Rebuilds className o
  first : ∀ p i, p < position → (DependencyOrder.ofRecord root).get? p = some i →
    ¬Rebuilds className i

/-- One object is the first of its class. -/
theorem IsFirst.unique {root : Record} {className : String} {p q : Nat} {o i : Occurrence}
    (ho : IsFirst root className p o) (hi : IsFirst root className q i) : p = q ∧ o = i := by
  have hsame : p = q := by
    rcases Nat.lt_trichotomy p q with hlt | heq | hgt
    · exact absurd ho.rebuilds (hi.first p o hlt ho.stands)
    · exact heq
    · exact absurd hi.rebuilds (ho.first q i hgt hi.stands)
  refine ⟨hsame, ?_⟩
  have hstands := ho.stands
  rw [hsame, hi.stands, Option.some.injEq] at hstands
  exact hstands.symm

/-- An object is the first of its class exactly if it is so at its own position. -/
theorem IsFirst.eq_iff {root : Record} {className : String} {p q : Nat} {o i : Occurrence}
    (ho : IsFirst root className q o) (hi : (DependencyOrder.ofRecord root).get? p = some i) :
    o = i ↔ IsFirst root className p i := by
  constructor
  · rintro rfl
    have hposition : p = q := Option.some.inj
      ((DependencyOrder.get?_eq_some_iff.1 hi).2.symm.trans
        (DependencyOrder.get?_eq_some_iff.1 ho.stands).2)
    rw [hposition]
    exact ho
  · intro hfirst
    exact (ho.unique hfirst).2

/-- The rows of the objects that can be rebuilt as components of a class. -/
def rowsOfClass (root : Record) (className : String) : List (Nat × Occurrence) :=
  (DependencyOrder.configurableRows (DependencyOrder.ofRecord root).rows).filter
    fun row => row.2.record.className == className

/-- The rows of a class are those of objects that can be rebuilt as its components. -/
theorem mem_rowsOfClass {root : Record} {className : String} {row : Nat × Occurrence} :
    row ∈ rowsOfClass root className ↔
      row ∈ (DependencyOrder.ofRecord root).rows ∧ Rebuilds className row.2 := by
  rw [rowsOfClass, DependencyOrder.configurableRows, List.mem_filter, List.mem_filter, beq_iff_eq,
    and_assoc]
  rfl

/-- The first row of a class has its first object. -/
theorem isFirst_of_rowsOfClass {root : Record} {className : String} {row : Nat × Occurrence}
    {rest : List (Nat × Occurrence)} (h : rowsOfClass root className = row :: rest) :
    IsFirst root className row.1 row.2 := by
  have hmem : row ∈ rowsOfClass root className := by
    rw [h]
    exact List.mem_cons_self
  obtain ⟨hrow, hrebuilds⟩ := mem_rowsOfClass.1 hmem
  refine ⟨DependencyOrder.get?_of_mem_rows hrow, hrebuilds, ?_⟩
  intro p i hp hi hirebuilds
  -- rows stand in the order of their positions, so every other row of the class comes later
  have hpositions : ((DependencyOrder.ofRecord root).rows.map Prod.fst).Pairwise (· < ·) := by
    rw [DependencyOrder.map_fst_rows]
    exact List.pairwise_lt_range
  have hascending : (row :: rest).Pairwise fun a b => a.1 < b.1 := by
    rw [← h]
    exact ((List.pairwise_map.1 hpositions).sublist List.filter_sublist).sublist
      List.filter_sublist
  have hother : (p, i) ∈ row :: rest := by
    rw [← h, mem_rowsOfClass]
    refine ⟨?_, hirebuilds⟩
    have hget := DependencyOrder.getElem?_rows root p
    rw [hi] at hget
    exact List.mem_of_getElem? hget
  rcases List.mem_cons.1 hother with rfl | hlater
  · exact Nat.lt_irrefl p hp
  · exact Nat.lt_asymm hp ((List.pairwise_cons.1 hascending).1 (p, i) hlater)

/-! ## Configurations of a class -/

variable {m : ModelRecord} {configs : List Configuration} {directory : Directory}

/-- The configuration of an object has the count of the object once counts are restored. -/
theorem exists_configuration_restored (h : m.record.extract = .ok configs)
    {row : Nat × Occurrence} (hrow : row ∈ (DependencyOrder.ofRecord m.record).rows)
    (hconf : row.2.record.configurable = true) (catalog : Catalog) :
    ∃ c ∈ configs, (DependencyOrder.ofRecord m.record).nameOf? row.2 = some c.name ∧
      c.name = rowName row ∧ Extraction.Configures (.ofRecord m.record) c row.2 ∧
      (restoredWorkshop (DependencyOrder.ofRecord m.record).rows
        (.holding catalog configs)).configuration? c.name =
          some (withCount (countText? row.2) c) := by
  have hget := DependencyOrder.get?_of_mem_rows hrow
  obtain ⟨hmem, hposition⟩ := DependencyOrder.get?_eq_some_iff.1 hget
  have hname : (DependencyOrder.ofRecord m.record).nameOf? row.2 = some (rowName row) := by
    rw [DependencyOrder.nameOf?, hposition]
    rfl
  obtain ⟨c, hc, hcname, hconfigures⟩ := Record.exists_configuration h hmem hconf hname
  refine ⟨c, hc, by rw [hname, hcname], hcname, hconfigures, ?_⟩
  have hfound := @Workshop.configuration?_of_mem (.holding catalog configs)
    (Record.nodup_configurationNames h) c hc
  rw [Workshop.configuration?] at hfound ⊢
  rw [restoredWorkshop, find?_restoredConfigs, hfound, Option.map_some, hcname,
    restoredText_rowName (DependencyOrder.nodup_rowNames m.record) hrow]

/-- The names of the configurations of a class are those of the objects that can be rebuilt as
components of it. -/
theorem namesWhere_className (h : m.record.extract = .ok configs) (className : String)
    {w : Workshop} (hw : w.configurations.map (fun c => (c.name, c.className)) =
      configs.map fun c => (c.name, c.className)) :
    w.namesWhere (fun c => c.className == className) =
      (rowsOfClass m.record className).map rowName := by
  have hnames : w.namesWhere (fun c => c.className == className) =
      ((w.configurations.map fun c => (c.name, c.className)).filter fun e =>
        e.2 == className).map Prod.fst := by
    rw [List.filter_map, List.map_map]
    rfl
  rw [hnames, hw, Extraction.map_configurations h, List.filter_map, List.map_map]
  rfl

/-! ## The recovered trainer -/

/-- The first trainer is among what was found. -/
theorem exists_mem_of_firstTrainer {found : List (String × Component)} {handle : Nat}
    (h : firstTrainer found = some handle) : ∃ e ∈ found, e.2 = .trainer handle := by
  fun_induction firstTrainer found with
  | case1 => simp at h
  | case2 name other rest =>
      obtain rfl := Option.some.inj h
      exact ⟨_, List.mem_cons_self, rfl⟩
  | case3 e rest _ ih =>
      obtain ⟨f, hf, hhandle⟩ := ih h
      exact ⟨f, List.mem_cons_of_mem _ hf, hhandle⟩

/-- Where all components are trainers the first one is taken. -/
theorem exists_cons_of_firstTrainer {found : List (String × Component)} {handle : Nat}
    (h : firstTrainer found = some handle) (hkinds : ∀ e ∈ found, e.2.kind = .trainer) :
    ∃ name rest, found = (name, .trainer handle) :: rest := by
  cases found with
  | nil => simp [firstTrainer] at h
  | cons e rest =>
      rcases e with ⟨name, c⟩
      have hkind := hkinds (name, c) List.mem_cons_self
      cases c with
      | trainer other =>
          obtain rfl : other = handle := Option.some.inj h
          exact ⟨name, rest, rfl⟩
      | dataSource other source => simp [Component.kind] at hkind
      | kernel k => simp [Component.kind] at hkind

/-- Whether the trainer with a handle was made from the configuration that was extracted for an
object of the record, with the recorded count of the object restored in it. -/
def MadeFor (directory : Directory) (s : Reproduction) (handle : Nat) (o : Occurrence) : Prop :=
  ∃ configs c entry t, s.record.record.extract = .ok configs ∧ c ∈ configs ∧
    (DependencyOrder.ofRecord s.record.record).nameOf? o = some c.name ∧
    Extraction.Configures (.ofRecord s.record.record) c o ∧
    s.workshop.configuration? c.name = some (withCount (countText? o) c) ∧
    s.workshop.made? c.name = some (.trainer handle) ∧
    s.workshop.trainer? handle = some t ∧
    Workshop.MadeFrom directory s.workshop (withCount (countText? o) c) entry (.trainer t)
      (.trainer handle)

/-- A trainer was made for one object only. -/
theorem MadeFor.unique {s : Reproduction} (hs : s.workshop.Crafted directory) {handle : Nat}
    {o i : Occurrence} (ho : o ∈ s.record.record.occurrences)
    (hi : i ∈ s.record.record.occurrences) (hmade : MadeFor directory s handle o)
    (hother : MadeFor directory s handle i) : o = i := by
  obtain ⟨-, c, -, -, -, -, hname, -, -, hkept, -⟩ := hmade
  obtain ⟨-, d, -, -, -, -, hnamed, -, -, hhad, -⟩ := hother
  rw [← hs.apart hkept hhad] at hnamed
  exact DependencyOrder.eq_of_nameOf? ho hi hname hnamed

/-- Every component of a class that is found after counts were restored was made from the
configuration of an object of the class. -/
theorem exists_madeFrom_of_allOfClass (hextract : m.record.extract = .ok configs)
    {catalog : Catalog} {className : String} {found : List (String × Component)} {w : Workshop}
    (hall : (Workshop.allOfClass directory className).run
      (restoredWorkshop (DependencyOrder.ofRecord m.record).rows (.holding catalog configs)) =
        (.ok found, w)) :
    w.Crafted directory ∧ found.map Prod.fst = (rowsOfClass m.record className).map rowName ∧
      ∀ row ∈ rowsOfClass m.record className, ∀ c, (rowName row, c) ∈ found →
        ∃ config ∈ configs, ∃ entry product,
          (DependencyOrder.ofRecord m.record).nameOf? row.2 = some config.name ∧
          Extraction.Configures (.ofRecord m.record) config row.2 ∧
          w.configuration? config.name = some (withCount (countText? row.2) config) ∧
          w.made? config.name = some c ∧ catalog.entry? className = some entry ∧
          Workshop.MadeFrom directory w (withCount (countText? row.2) config) entry product c := by
  have hnew : (restoredWorkshop (DependencyOrder.ofRecord m.record).rows
      (.holding catalog configs)).Crafted directory :=
    Workshop.crafted_of_instances_nil (ite_self [])
  obtain ⟨hcrafted, hcontinues, hnames, hmade⟩ :=
    (Workshop.crafts_allOfClass className hnew).of_run found w hall
  rw [namesWhere_className hextract className (map_restoredConfigs (by simp) _ _)] at hnames
  refine ⟨hcrafted, hnames, ?_⟩
  intro row hrow c hc
  obtain ⟨hmem, hconf, hclass⟩ := mem_rowsOfClass.1 hrow
  obtain ⟨config, hconfig, hname, hrowName, hconfigures, hrestored⟩ :=
    exists_configuration_restored hextract hmem hconf catalog
  have hfound : w.configuration? config.name = some (withCount (countText? row.2) config) := by
    rw [Workshop.configuration?, hcontinues.grows.configurations]
    exact hrestored
  have hkept : w.made? config.name = some c := by
    rw [hrowName]
    exact hmade _ hc
  obtain ⟨other, entry, product, hother, hfrom⟩ := hcrafted.crafted hkept
  obtain rfl := Option.some.inj (hfound.symm.trans hother)
  refine ⟨config, hconfig, entry, product, hname, hconfigures, hfound, hkept, ?_, hfrom⟩
  have hentry := hfrom.registered
  rw [hcontinues.grows.catalog, className_withCount, hconfigures.className, hclass] at hentry
  exact hentry

/-- The first trainer of a class that is found has the name of the first row of the class. -/
theorem exists_row_of_firstTrainer (hextract : m.record.extract = .ok configs)
    {catalog : Catalog} {className : String} {found : List (String × Component)} {w : Workshop}
    (hall : (Workshop.allOfClass directory className).run
      (restoredWorkshop (DependencyOrder.ofRecord m.record).rows (.holding catalog configs)) =
        (.ok found, w)) {handle : Nat} (hfirst : firstTrainer found = some handle) :
    ∃ row rest, rowsOfClass m.record className = row :: rest ∧
      (rowName row, .trainer handle) ∈ found := by
  obtain ⟨-, hnames, hmade⟩ := exists_madeFrom_of_allOfClass hextract hall
  have hkinds : ∀ e ∈ found, ∃ entry, catalog.entry? className = some entry ∧
      e.2.kind = entry.kind := by
    intro e he
    have hname : e.1 ∈ (rowsOfClass m.record className).map rowName := by
      rw [← hnames]
      exact List.mem_map_of_mem he
    obtain ⟨row, hrow, hname⟩ := List.mem_map.1 hname
    obtain ⟨config, -, entry, product, -, -, -, -, hentry, hfrom⟩ := hmade row hrow e.2 (hname ▸ he)
    exact ⟨entry, hentry, (Workshop.kind_of_product? hfrom.component).trans hfrom.kind⟩
  -- all that is found is of the kind of its class, so if one is a trainer the first one is
  have htrainers : ∀ e ∈ found, e.2.kind = .trainer := by
    obtain ⟨f, hf, hhandle⟩ := exists_mem_of_firstTrainer hfirst
    obtain ⟨entry, hentry, hkind⟩ := hkinds f hf
    intro e he
    obtain ⟨other, hother, hsame⟩ := hkinds e he
    obtain rfl := Option.some.inj (hentry.symm.trans hother)
    rw [hsame, ← hkind, hhandle]
    rfl
  obtain ⟨name, rest, rfl⟩ := exists_cons_of_firstTrainer hfirst htrainers
  cases hclass : rowsOfClass m.record className with
  | nil => simp [hclass] at hnames
  | cons row more =>
      rw [hclass, List.map_cons, List.map_cons, List.cons.injEq] at hnames
      exact ⟨row, more, rfl, by rw [← hnames.1]; exact List.mem_cons_self⟩

/-- The trainer that is recovered from the record of a model over any catalog was made from the
configuration of the first object in dependency order of the class of the recorded trainer; it was
made for the recorded trainer exactly if that is the first one. -/
theorem recoverTrainer_first_of_class {catalog : Catalog} {r s : Reproduction} {handle : Nat}
    (hr : ofRecord m catalog = .ok r) (h : (recoverTrainer directory).run r = (.ok handle, s)) :
    s.record = m ∧ ∃ own p first q, m.trainer = .ok own ∧
      (DependencyOrder.ofRecord m.record).get? p = some own ∧
      IsFirst m.record own.record.className q first ∧ MadeFor directory s handle first ∧
      (MadeFor directory s handle own ↔ IsFirst m.record own.record.className p own) := by
  obtain ⟨configs, hextract, rfl⟩ := eq_of_ofRecord hr
  have hregistered := registered_of_extract hextract
    (w := (prepared catalog m none configs).workshop) rfl
  obtain ⟨own, found, hown, hconf, hall, hfirst, hrecord⟩ :=
    exists_of_run_recoverTrainer hregistered h
  obtain ⟨row, rest, hclass, hfound⟩ := exists_row_of_firstTrainer hextract hall hfirst
  obtain ⟨hcrafted, -, hmade⟩ := exists_madeFrom_of_allOfClass hextract hall
  have hisFirst := isFirst_of_rowsOfClass hclass
  have hrow : row ∈ rowsOfClass m.record own.record.className := by
    rw [hclass]
    exact List.mem_cons_self
  obtain ⟨config, hconfig, entry, product, hname, hconfigures, hrestored, hkept, -, hfrom⟩ :=
    hmade row hrow (.trainer handle) hfound
  obtain ⟨t, ht, rfl⟩ := Option.map_eq_some_iff.1 hfrom.component
  obtain ⟨hmem, -⟩ := mem_of_required hown
  obtain ⟨p, hp⟩ := DependencyOrder.exists_get? hmem
  have hfor : MadeFor directory s handle row.2 := by
    rw [MadeFor, hrecord]
    exact ⟨configs, config, entry, t, hextract, hconfig, hname, hconfigures, hrestored, hkept, ht,
      hfrom⟩
  refine ⟨hrecord, own, p, row.2, row.1, hown, hp, hisFirst, hfor, ?_⟩
  rw [← hisFirst.eq_iff hp]
  constructor
  · intro hforOwn
    have hstands := (DependencyOrder.get?_eq_some_iff.1 hisFirst.stands).1
    exact hfor.unique hcrafted (by rw [hrecord]; exact hstands) (by rw [hrecord]; exact hmem)
      hforOwn
  · intro heq
    rw [← heq]
    exact hfor

/-- A trainer that is used to tune. -/
def tuner : Trainer :=
  { Trainer.standard with seed := 7 }

/-- The record of a model whose dataset records the trainer that it was tuned with, and that was
trained by another one. -/
def tunedModel : ModelRecord :=
  ⟨.observed .model Model.className
    [("dataset", (Record.observed .dataset "MutableDataset"
        [("tuned-by", tuner.record.node)]).node),
      ("trainer", ({ Trainer.standard with count := 2 } : Trainer).record.node)]⟩

/-- Whether a component is the trainer with a handle. -/
def isTrainer (handle : Nat) : Component → Bool
  | .trainer other => other == handle
  | _ => false

/-- From the record of the tuned model the trainer that it was tuned with is recovered. -/
theorem run_recoverTrainer_tunedModel :
    ∃ r s handle, ofRecord tunedModel .standard = .ok r ∧
      (recoverTrainer .empty).run r = (.ok handle, s) ∧
      s.workshop.trainer? handle = some tuner ∧
      ∀ own, tunedModel.trainer = .ok own → ∀ name,
        (DependencyOrder.ofRecord s.record.record).nameOf? own = some name →
          s.workshop.made? name ≠ some (.trainer handle) := by
  have hruns : ((ofRecord tunedModel .standard).toOption.any fun r =>
      ((recoverTrainer .empty).run r).1.toOption.any fun handle =>
        ((recoverTrainer .empty).run r).2.workshop.trainer? handle == some tuner &&
          tunedModel.trainer.toOption.all fun own =>
            ((DependencyOrder.ofRecord ((recoverTrainer .empty).run r).2.record.record).nameOf?
              own).all fun name =>
                (((recoverTrainer .empty).run r).2.workshop.made? name).all fun c =>
                  !isTrainer handle c) = true := by decide +kernel
  simp only [Option.any_eq_true, toOption_eq_some_iff, Bool.and_eq_true, beq_iff_eq,
    Option.all_eq_true] at hruns
  obtain ⟨r, hr, handle, hfound, htuner, hother⟩ := hruns
  refine ⟨r, _, handle, hr, Prod.ext hfound rfl, htuner, ?_⟩
  intro own hown name hname hmade
  simpa [isTrainer] using hother own hown name hname _ hmade

/-- The trainer that is recovered need not have been made for the recorded one. -/
theorem recoverTrainer_not_own :
    ¬∀ (m : ModelRecord) (catalog : Catalog) (directory : Directory) (r s : Reproduction)
      (handle : Nat), ofRecord m catalog = .ok r →
        (recoverTrainer directory).run r = (.ok handle, s) →
          ∃ own, m.trainer = .ok own ∧ MadeFor directory s handle own := by
  intro hclaim
  obtain ⟨r, s, handle, hr, hrun, -, hother⟩ := run_recoverTrainer_tunedModel
  obtain ⟨own, hown, configs, c, entry, t, -, -, hname, -, -, hmade, -⟩ :=
    hclaim tunedModel .standard .empty r s handle hr hrun
  exact hother own hown c.name hname hmade

/-- The trainer that is recovered for the tuned model is the one of the first object. -/
theorem recoverTrainer_first_of_class_tunedModel :
    ∃ r s handle, ofRecord tunedModel .standard = .ok r ∧
      (recoverTrainer .empty).run r = (.ok handle, s) ∧
      s.workshop.trainer? handle = some tuner ∧
      s.record = tunedModel ∧ ∃ own p first q, tunedModel.trainer = .ok own ∧
        (DependencyOrder.ofRecord tunedModel.record).get? p = some own ∧
        IsFirst tunedModel.record own.record.className q first ∧ MadeFor .empty s handle first ∧
        (MadeFor .empty s handle own ↔ IsFirst tunedModel.record own.record.className p own) := by
  obtain ⟨r, s, handle, hr, hrun, htuner, -⟩ := run_recoverTrainer_tunedModel
  exact ⟨r, s, handle, hr, hrun, htuner, recoverTrainer_first_of_class hr hrun⟩

end Reproduction
end Retrace
