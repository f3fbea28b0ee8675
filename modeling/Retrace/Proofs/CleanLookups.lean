import Retrace.Proofs.LookupRecursion
import Retrace.Proofs.WorkshopCalls

/-!
# Lookups that fail cleanly

A workshop over an orderly catalog may be asked for any component after any calls, however its
configurations refer to each other.  The lookup comes to an end.  If it fails, the error is about a
component that the name leads to, the configurations are as they were, nothing is marked as being
made, and what was made on the way is complete.

A recipe may break a contract instead of failing, as one does that reads a file for which there is
not enough memory.  Then there is no error to be returned, and the workshop is not used again.

Main results:

- Theorem `idle_after`: after any calls nothing is being made.
- Theorem `lookup_fails_cleanly`: how a lookup ends after any calls.
-/

namespace Retrace
namespace Workshop

variable {directory : Directory} {refers : Configuration → String → Prop} {catalog : Catalog}
  {w v : Workshop}

/-! ## Looking up -/

/-- A lookup ends with a component that was made, or with an error that is accounted for. -/
theorem concludes_lookup (name : String) (hcatalog : w.catalog.Orderly refers) :
    Concludes directory w (lookup directory name) (Accounts directory refers w name)
      fun c v => v.made? name = some c := by
  rw [lookup]
  exact (concludes_lookupWithin _ name hcatalog).get_bind

/-- Several lookups end with the names that were being made before. -/
theorem concludes_lookupAll (names : List String) (hcatalog : w.catalog.Orderly refers) :
    Concludes directory w (lookupAll directory names) (fun _ => True) fun _ _ => True := by
  induction names generalizing w with
  | nil => exact .pure trivial
  | cons name rest ih =>
      have hfirst : Concludes directory w (lookup directory name) (fun _ => True) fun _ _ => True :=
        (concludes_lookup name hcatalog).mono (fun _ _ => trivial) fun _ _ _ _ => trivial
      apply hfirst.bind
      intro c v hgrows _ _
      apply (ih (hgrows.catalog ▸ hcatalog)).bind
      intro more u _ _ _
      exact .pure trivial

/-! ## Calls -/

/-- What holds of a workshop between calls, whatever its catalog. -/
structure Idle (catalog : Catalog) (w : Workshop) : Prop where
  catalog_eq : w.catalog = catalog
  making : w.making = []
  names : (w.configurations.map Configuration.name).Nodup

/-- Work of which only the end is looked at. -/
theorem Concludes.unit {β : Type} {work : Work β} {fails : Error → Prop}
    {post : β → Workshop → Prop} (h : Concludes directory w work fails post) :
    Concludes directory w (do let _ ← work; return ()) fails fun _ _ => True :=
  h.bind fun _ _ _ _ _ => .pure trivial

/-- Work that concludes leaves an idle workshop idle. -/
theorem Concludes.idle {call : Call} {fails : Error → Prop}
    (hconcludes : Concludes directory w (call.work directory) fails fun _ _ => True)
    (hw : w.Idle catalog) (h : call.run directory w = some v) : v.Idle catalog := by
  obtain ⟨r, hrun, horderly⟩ := Call.exists_run_work h
  cases hconcludes with
  | ok b u run advances making =>
      obtain ⟨-, rfl⟩ := Prod.mk.inj (hrun.symm.trans run)
      exact ⟨advances.grows.catalog.trans hw.catalog_eq, making.trans hw.making,
        advances.grows.configurations ▸ hw.names⟩
  | error e u run advances making =>
      obtain ⟨hr, rfl⟩ := Prod.mk.inj (hrun.symm.trans run)
      exact ⟨advances.grows.catalog.trans hw.catalog_eq, (making (horderly e hr)).trans hw.making,
        advances.grows.configurations ▸ hw.names⟩

/-- A call leaves an idle workshop idle. -/
theorem Call.idle_run {call : Call} (hcatalog : catalog.Orderly refers) (hw : w.Idle catalog)
    (h : call.run directory w = some v) : v.Idle catalog := by
  have horderly : w.catalog.Orderly refers := hw.catalog_eq ▸ hcatalog
  cases call with
  | add configs =>
      obtain ⟨more, rfl, hnames⟩ := Call.eq_of_run_add hw.names h
      exact ⟨hw.catalog_eq, hw.making, hnames⟩
  | set name key value =>
      rcases Call.cases_of_run_set h with rfl | ⟨-, hsame, hmaking, -, hnames⟩
      · exact hw
      · exact ⟨hsame.trans hw.catalog_eq, hmaking.trans hw.making, hnames ▸ hw.names⟩
  | lookup name =>
      exact (concludes_lookup name horderly).unit.idle hw h
  | allOfClass className =>
      have hall : Concludes directory w (Workshop.allOfClass directory className) (fun _ => True)
          fun _ _ => True := (concludes_lookupAll _ horderly).get_bind
      exact hall.unit.idle hw h
  | allOfKind kind =>
      have hall : Concludes directory w (Workshop.allOfKind directory kind) (fun _ => True)
          fun _ _ => True := (concludes_lookupAll _ horderly).get_bind
      exact hall.unit.idle hw h
  | train occasion handle d =>
      obtain ⟨trainers, rfl, -⟩ := Call.eq_of_run_train h
      exact ⟨hw.catalog_eq, hw.making, hw.names⟩

/-- After any calls nothing is being made. -/
theorem idle_after {calls : List Call} (hcatalog : catalog.Orderly refers) (hw : w.Idle catalog)
    (h : after directory w calls = some v) : v.Idle catalog := by
  induction calls generalizing w with
  | nil => exact Option.some.inj h ▸ hw
  | cons call rest ih =>
      rw [after, Option.bind_eq_some_iff] at h
      obtain ⟨u, hcall, h⟩ := h
      exact ih (Call.idle_run hcatalog hw hcall) h

/-- Whether a lookup has ended cleanly.  The configurations are as they were, what was made is still
there, and what is new was made to the end.  An error is about a component that the name leads to,
and nothing is being made, unless the recipe of such a component broke a contract. -/
structure EndsCleanly (directory : Directory) (refers : Configuration → String → Prop)
    (w : Workshop) (name : String) (result : Except Error Component) (v : Workshop) : Prop where
  configurations : v.configurations = w.configurations
  kept : ∀ other c, w.made? other = some c → v.made? other = some c
  complete : ∀ other c, v.made? other = some c →
    w.made? other = some c ∨ CraftedAs directory v other c
  about : ∀ e, result = .error e → e.isBreach = false →
    ∃ other, e.component? = some other ∧ w.Reaches refers name other
  broken : ∀ e, result = .error e → e.isBreach = true → ∃ other config entry,
    w.Reaches refers name other ∧ w.configuration? other = some config ∧
      w.catalog.entry? config.className = some entry ∧ (entry.recipe directory config).MayFail e
  idle : (∀ e, result = .error e → e.isBreach = false) → v.making = []

/-- However a lookup ends, it ends cleanly. -/
theorem endsCleanly_of_run_lookup {name : String} {result : Except Error Component}
    (hcatalog : w.catalog.Orderly refers) (hidle : w.making = [])
    (h : (lookup directory name).run w = (result, v)) :
    EndsCleanly directory refers w name result v := by
  cases @concludes_lookup directory refers w name hcatalog with
  | ok c u run advances making yields =>
      obtain ⟨rfl, rfl⟩ := Prod.mk.inj (h.symm.trans run)
      exact ⟨advances.grows.configurations, fun _ _ hc => advances.grows.instances hc,
        advances.complete, by simp, by simp, fun _ => making.trans hidle⟩
  | error e u run advances making explained =>
      obtain ⟨rfl, rfl⟩ := Prod.mk.inj (h.symm.trans run)
      refine ⟨advances.grows.configurations, fun _ _ hc => advances.grows.instances hc,
        advances.complete, ?_, ?_, fun horderly => (making (horderly e rfl)).trans hidle⟩
      · intro f hf horderly
        obtain rfl := Except.error.inj hf
        cases explained with
        | component other about reached => exact ⟨other, about, reached⟩
        | breach other config entry _ _ _ _ isBreach => simp [isBreach] at horderly
      · intro f hf hbreach
        obtain rfl := Except.error.inj hf
        cases explained with
        | component other about reached => simp [Error.component?_of_isBreach hbreach] at about
        | breach other config entry reached configured registered broken isBreach =>
            exact ⟨other, config, entry, reached, configured, registered, broken⟩

/-- After any calls of a workshop over an orderly catalog, as the standard one is, nothing is being
made.  Looking up any name then comes to an end: unfolding the recursion once more than there are
configurations is enough, whatever would be done below.  It fails if it comes back to a name that is
being made, and however it ends, it ends cleanly. -/
theorem lookup_fails_cleanly {calls : List Call} (hcatalog : catalog.Orderly refers)
    (h : after directory (ofCatalog catalog) calls = some w) :
    Catalog.standard.Orderly Configuration.RefersTo ∧ w.making = [] ∧ ∀ name,
      (lookup directory name).run w = (lookupBy directory (lookup directory) name).run w ∧
      (∀ look n, w.configurations.length + 1 ≤ n →
        (((lookupBy directory)^[n] look) name).run w = (lookup directory name).run w) ∧
      (∀ other v, ComesTo directory other v w name → other ∈ v.making →
        ∃ u, (lookup directory name).run w =
          (.error (.component other (.cycle (v.making ++ [other]))), u)) ∧
      ∀ result v, (lookup directory name).run w = (result, v) →
        EndsCleanly directory refers w name result v := by
  have hnew : (ofCatalog catalog).Idle catalog := ⟨rfl, rfl, List.nodup_nil⟩
  have hw : w.Idle catalog := idle_after hcatalog hnew h
  have horderly : w.catalog.Orderly refers := hw.catalog_eq ▸ hcatalog
  have hunfinished : w.Unfinished := by simp [Unfinished, hw.making]
  refine ⟨Catalog.orderly_standard, hw.making, fun name => ⟨run_lookup_eq name horderly,
    fun look n hn => run_iterate_lookupBy look name horderly hn,
    fun other v hback hmaking => hback.run_lookup horderly hunfinished hmaking,
    fun result v hrun => endsCleanly_of_run_lookup horderly hw.making hrun⟩⟩

/-- A trainer that refers to itself, and one that refers to nothing. -/
def knot : List Configuration :=
  [⟨"svmtrainer-0", "SVMTrainer", [("kernel", .component "svmtrainer-0")]⟩,
    ⟨"svmtrainer-1", "SVMTrainer", [("kernel", .component "rbfkernel-2")]⟩]

/-- The knotted configurations can be registered. -/
theorem after_add_knot (directory : Directory) :
    after directory (ofCatalog .standard) [.add knot] = some (holding .standard knot) := by
  have hadd := @run_add knot (ofCatalog .standard) (by decide)
  rw [after, Call.run, Call.work, hadd]
  rfl

/-- The trainer that refers to itself is found to do so.  The one that refers to nothing fails with
an error about the kernel that it leads to, and afterwards nothing is being made. -/
theorem lookup_fails_cleanly_knot :
    (∃ u, (lookup .empty "svmtrainer-0").run (holding .standard knot) =
        (.error (.component "svmtrainer-0" (.cycle ["svmtrainer-0", "svmtrainer-0"])), u)) ∧
      ∃ u, (lookup .empty "svmtrainer-1").run (holding .standard knot) =
          (.error (.component "rbfkernel-2" .notRegistered), u) ∧
        (holding .standard knot).Reaches Configuration.RefersTo "svmtrainer-1" "rbfkernel-2" ∧
        u.configurations = knot ∧ u.making = [] := by
  obtain ⟨-, -, hclean⟩ := lookup_fails_cleanly Catalog.orderly_standard (after_add_knot .empty)
  constructor
  · obtain ⟨-, -, hcycle, -⟩ := hclean "svmtrainer-0"
    have hfollows : Follows .empty (holding .standard knot) "svmtrainer-0"
        { holding .standard knot with making := ["svmtrainer-0"] } "svmtrainer-0"
        ⟨"svmtrainer-0", "SVMTrainer", [("kernel", .component "svmtrainer-0")]⟩
        ⟨.trainer, Recipe.trainer⟩ :=
      ⟨rfl, rfl, rfl, by simp [holding, ofCatalog], .here⟩
    exact hcycle "svmtrainer-0" _ (.through hfollows .here) List.mem_cons_self
  · obtain ⟨-, -, -, hends⟩ := hclean "svmtrainer-1"
    have hfails :
        (((lookup .empty "svmtrainer-1").run (holding .standard knot)).1.map fun _ => ()) =
          .error (.component "rbfkernel-2" .notRegistered) := by decide +kernel
    rcases hrun : (lookup .empty "svmtrainer-1").run (holding .standard knot) with ⟨found, u⟩
    rw [hrun] at hfails
    cases found with
    | ok c => simp [Except.map] at hfails
    | error e =>
        obtain rfl : e = .component "rbfkernel-2" .notRegistered := Except.error.inj hfails
        have hend := hends _ u hrun
        obtain ⟨other, habout, hreached⟩ := hend.about _ rfl rfl
        obtain rfl : "rbfkernel-2" = other := Option.some.inj habout
        exact ⟨u, rfl, hreached, hend.configurations,
          hend.idle fun f hf => Except.error.inj hf ▸ rfl⟩

end Workshop
end Retrace
