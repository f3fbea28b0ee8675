import Retrace.Proofs.RestoredCounts
import Retrace.Proofs.WorkshopCalls

/-!
# Calls of a reproduction

A reproduction is used by calls in any order: its trainer and its dataset are recovered, the model
is trained again, components of its workshop are looked up, and the trainers that it handed out are
used by others.  Calls may fail.  Whatever was called before, nothing is being made, and the
configurations are those of the record, with the recorded counts restored or not.

A broken contract ends the use of a reproduction.

Main results:

- Theorem `Call.steady_run`: what one call keeps.
- Theorem `steady_after`: what holds after any calls.
-/

namespace Retrace

/-! ## Steps that keep an invariant -/

section Preserves

variable {σ β γ : Type}

/-- Whether a computation from a state ends in one with an invariant, unless it breaks a
contract. -/
structure Preserves (holds : σ → Prop) (s : σ) (x : ExceptT Error (StateM σ) β) : Prop where
  of_run : ∀ found t, x.run s = (found, t) → (∀ e, found = .error e → e.isBreach = false) → holds t

namespace Preserves

variable {holds : σ → Prop} {s : σ} {x : ExceptT Error (StateM σ) β}

theorem of_run_eq {found : Except Error β} {t : σ} (hrun : x.run s = (found, t)) (ht : holds t) :
    Preserves holds s x := by
  constructor
  intro other u hother _
  obtain ⟨-, rfl⟩ := Prod.mk.inj (hrun.symm.trans hother)
  exact ht

theorem pure (hs : holds s) (b : β) : Preserves holds s (Pure.pure b) :=
  of_run_eq (run_pure b s) hs

theorem throw (hs : holds s) (e : Error) :
    Preserves holds s (MonadExcept.throw e : ExceptT Error (StateM σ) β) :=
  of_run_eq (run_throw e s) hs

/-- Steps that keep an invariant one after the other keep it. -/
theorem bind {f : β → ExceptT Error (StateM σ) γ} (h : Preserves holds s x)
    (hnext : ∀ b t, holds t → Preserves holds t (f b)) : Preserves holds s (x >>= f) := by
  constructor
  intro found u hrun horderly
  rcases hx : x.run s with ⟨first, t⟩
  cases first with
  | error e =>
      rw [run_bind_error hx] at hrun
      obtain ⟨rfl, rfl⟩ := Prod.mk.inj hrun
      apply h.of_run _ _ hx
      intro f hf
      exact horderly f (congrArg _ (Except.error.inj hf))
  | ok b =>
      rw [run_bind_ok hx] at hrun
      have ht : holds t := h.of_run _ _ hx (by simp)
      exact (hnext b t ht).of_run found u hrun horderly

theorem throw_bind (hs : holds s) (e : Error) (f : β → ExceptT Error (StateM σ) γ) :
    Preserves holds s ((MonadExcept.throw e : ExceptT Error (StateM σ) β) >>= f) :=
  of_run_eq (run_bind_error (run_throw e s)) hs

theorem get_bind {f : σ → ExceptT Error (StateM σ) β} (h : Preserves holds s (f s)) :
    Preserves holds s (get >>= f) := by
  constructor
  intro found t hrun horderly
  rw [run_get_bind] at hrun
  exact h.of_run found t hrun horderly

end Preserves

end Preserves

namespace Reproduction

open DependencyOrder (rowName)

/-! ## Calls -/

/-- A call of a reproduction, of its workshop, or of a trainer that it handed out. -/
inductive Call where
  | recoverTrainer
  | recoverDataset
  | fromRecord (occasion : Occasion)
  | fromModel (occasion : Occasion)
  | lookup (name : String)
  | allOfClass (className : String)
  | allOfKind (kind : ComponentKind)
  | train (occasion : Occasion) (handle : Nat) (d : Dataset)

/-- What a call does, whatever it yields. -/
def Call.step (directory : Directory) : Call → Step Unit
  | .recoverTrainer => do
      let _ ← Reproduction.recoverTrainer directory
      pure ()
  | .recoverDataset => do
      let _ ← Reproduction.recoverDataset directory
      pure ()
  | .fromRecord occasion => do
      let _ ← Reproduction.fromRecord directory occasion
      pure ()
  | .fromModel occasion => do
      let _ ← Reproduction.fromModel directory occasion
      pure ()
  | .lookup name => do
      let _ ← inWorkshop (Workshop.lookup directory name)
      pure ()
  | .allOfClass className => do
      let _ ← inWorkshop (Workshop.allOfClass directory className)
      pure ()
  | .allOfKind kind => do
      let _ ← inWorkshop (Workshop.allOfKind directory kind)
      pure ()
  | .train occasion handle d => do
      let _ ← inWorkshop (Workshop.train occasion handle d)
      pure ()

/-- The reproduction after a call, unless a contract was broken. -/
def Call.run (directory : Directory) (call : Call) (r : Reproduction) : Option Reproduction :=
  match (call.step directory).run r with
  | (.ok (), s) => some s
  | (.error e, s) => if e.isBreach then none else some s

/-- The reproduction after calls. -/
def after (directory : Directory) : Reproduction → List Call → Option Reproduction
  | r, [] => some r
  | r, call :: rest => (call.run directory r).bind fun s => after directory s rest

/-! ## Reproductions between calls -/

/-- What holds of a reproduction between calls: the record and the reference are the first ones, the
workshop is as it must be, and its configurations have the recorded counts or not. -/
structure Steady (directory : Directory) (m : ModelRecord) (reference : Option Model)
    (configs : List Configuration) (r : Reproduction) : Prop where
  record : r.record = m
  reference : r.reference = reference
  served : Workshop.Served directory r.workshop
  configurations : r.workshop.configurations = configs ∨
    r.workshop.configurations =
      restoredConfigs (restorable (DependencyOrder.ofRecord m.record).rows) configs

variable {directory : Directory} {m : ModelRecord} {reference : Option Model}
  {configs : List Configuration} {r : Reproduction}

/-- A workshop that keeps its configurations and is as it must be keeps a reproduction steady. -/
theorem Steady.withWorkshop (hr : Steady directory m reference configs r) {w : Workshop}
    (hw : Workshop.Served directory w)
    (hconfigs : w.configurations = r.workshop.configurations) (stage : Stage) :
    Steady directory m reference configs ⟨r.record, r.reference, w, stage⟩ := by
  refine ⟨hr.record, hr.reference, hw, ?_⟩
  rw [hconfigs]
  exact hr.configurations

/-- Ending with a result keeps a reproduction steady. -/
theorem preserves_ofResult {β : Type} (hr : Steady directory m reference configs r)
    (result : Result β) : Preserves (Steady directory m reference configs) r (ofResult result) := by
  cases result with
  | ok b => exact .pure hr b
  | error e => exact .throw hr e

theorem preserves_reach (hr : Steady directory m reference configs r) (stage : Stage) :
    Preserves (Steady directory m reference configs) r (reach stage) :=
  .of_run_eq (rfl : (reach stage).run r = (.ok (), { r with stage := stage }))
    (hr.withWorkshop hr.served rfl stage)

/-- Work that keeps a faithful workshop keeps a reproduction steady. -/
theorem preserves_inWorkshop {β : Type} (hr : Steady directory m reference configs r)
    {work : Work β} {post : β → Workshop → Prop}
    (h : Workshop.Keeps directory r.workshop work post) :
    Preserves (Steady directory m reference configs) r (inWorkshop work) := by
  constructor
  intro found s hrun horderly
  rw [run_inWorkshop] at hrun
  obtain ⟨rfl, rfl⟩ := Prod.mk.inj hrun
  cases h with
  | ok b v run faithful grows making yields =>
      rw [run] at horderly ⊢
      apply hr.withWorkshop _ grows.configurations
      refine ⟨faithful, making.trans hr.served.idle, ?_⟩
      rw [grows.configurations]
      exact hr.served.names
  | error e v run faithful grows making =>
      rw [run] at horderly ⊢
      apply hr.withWorkshop _ grows.configurations
      refine ⟨faithful, (making (horderly e rfl)).trans hr.served.idle, ?_⟩
      rw [grows.configurations]
      exact hr.served.names

theorem preserves_train (hr : Steady directory m reference configs r) (occasion : Occasion)
    (handle : Nat) (d : Dataset) :
    Preserves (Steady directory m reference configs) r
      (inWorkshop (Workshop.train occasion handle d)) := by
  obtain ⟨found, trainers, hrun, hsettings⟩ :=
    Workshop.exists_run_train occasion handle d r.workshop
  have hstep : (inWorkshop (Workshop.train occasion handle d)).run r =
      (found, { r with workshop := { r.workshop with trainers := trainers } }) := by
    rw [run_inWorkshop, hrun]
  have hserved : Workshop.Served directory { r.workshop with trainers := trainers } := by
    refine ⟨⟨hr.served.faithful.catalog, ?_⟩, hr.served.idle, hr.served.names⟩
    intro name c hc
    obtain ⟨product, hproduct, hsame⟩ := hr.served.faithful.serves hc
    exact ⟨product, hproduct, (hsettings c).trans hsame⟩
  exact .of_run_eq hstep (hr.withWorkshop hserved rfl r.stage)

/-! ## Restoring counts -/

/-- Where no row restores a count, no text is restored under any name. -/
theorem restoredText_of_restoresAny {rows : List (Nat × Occurrence)}
    (h : restoresAny rows = false) (name : String) : restoredText rows name = none := by
  induction rows with
  | nil => rfl
  | cons row rest ih =>
      rw [restoresAny, List.any_cons, Bool.or_eq_false_iff] at h
      have htext : countText? row.2 = none := by
        simpa using h.1
      rw [restoredText, ih h.2, htext, ite_self]
      rfl

/-- Restoring counts leaves a workshop as it must be. -/
theorem served_restoredWorkshop {w : Workshop} (hw : Workshop.Served directory w)
    (rows : List (Nat × Occurrence)) : Workshop.Served directory (restoredWorkshop rows w) := by
  cases hany : restoresAny rows with
  | false =>
      have hconfigs : restoredConfigs rows w.configurations = w.configurations := by
        unfold restoredConfigs
        simp [restoredText_of_restoresAny hany, withCount]
      have hsame : restoredWorkshop rows w = w := by
        rw [restoredWorkshop, hconfigs, hany]
        rfl
      rw [hsame]
      exact hw
  | true =>
      refine ⟨⟨hw.faithful.catalog, ?_⟩, hw.idle, ?_⟩
      · intro name c hc
        rw [restoredWorkshop, hany] at hc
        simp at hc
      · have hnames : (restoredWorkshop rows w).configurations.map Configuration.name =
            w.configurations.map Configuration.name := map_restoredConfigs name_withCount ..
        rw [hnames]
        exact hw.names

/-- The counts that are restored do not depend on what was restored before. -/
theorem Steady.restored (hr : Steady directory m reference configs r) :
    restoredConfigs (restorable (DependencyOrder.ofRecord m.record).rows)
        r.workshop.configurations =
      restoredConfigs (restorable (DependencyOrder.ofRecord m.record).rows) configs := by
  rcases hr.configurations with h | h
  · rw [h]
  · rw [h, restoredConfigs_restoredConfigs]

/-- The trainers of the record are registered in a steady reproduction. -/
theorem Steady.registered (hr : Steady directory m reference configs r)
    (hextract : m.record.extract = .ok configs) :
    Registered (DependencyOrder.ofRecord m.record).rows r.workshop := by
  apply registered_of_extract hextract
  rcases hr.configurations with h | h
  · rw [h]
  · rw [h]
    exact map_restoredConfigs name_withCount ..

/-- Restoring the counts keeps a reproduction steady. -/
theorem preserves_restoreCounts (hr : Steady directory m reference configs r)
    (hextract : m.record.extract = .ok configs) :
    Preserves (Steady directory m reference configs) r
      (restoreCounts (DependencyOrder.ofRecord m.record).rows) := by
  apply Preserves.of_run_eq (run_restoreCounts_eq (hr.registered hextract))
  refine ⟨hr.record, hr.reference, served_restoredWorkshop hr.served _, .inr ?_⟩
  exact hr.restored

/-! ## Recovering and training -/

/-- Recovering the trainer keeps a reproduction steady. -/
theorem preserves_recoverTrainer (hr : Steady directory m reference configs r)
    (hextract : m.record.extract = .ok configs) :
    Preserves (Steady directory m reference configs) r (recoverTrainer directory) := by
  rw [recoverTrainer]
  apply Preserves.get_bind
  rw [hr.record]
  apply (preserves_ofResult hr _).bind
  intro own s hs
  split
  · exact Preserves.throw_bind hs _ _
  · apply (preserves_restoreCounts hs hextract).bind
    intro _ t ht
    split
    · exact Preserves.throw_bind ht _ _
    · apply (preserves_inWorkshop ht
        (Workshop.keeps_lookupAll _ ht.served.faithful).get_bind).bind
      intro found u hu
      split
      · exact .throw hu _
      · exact (preserves_reach hu _).bind fun _ v hv => .pure hv _

/-- Making a source anew keeps a reproduction steady. -/
theorem preserves_recoverLeaf (hr : Steady directory m reference configs r)
    (order : DependencyOrder) (leaf : Occurrence) :
    Preserves (Steady directory m reference configs) r (recoverLeaf directory order leaf) := by
  rw [recoverLeaf]
  split
  · exact Preserves.throw_bind hr _ _
  · apply Preserves.get_bind
    cases order.nameOf? leaf with
    | none =>
        simp only
        split
        · exact Preserves.throw_bind hr _ _
        · exact .throw hr _
    | some name =>
        simp only
        split
        · exact Preserves.throw_bind hr _ _
        · apply (preserves_inWorkshop hr (Workshop.keeps_lookup _ hr.served.faithful)).bind
          intro c s hs
          split
          · exact .pure hs _
          · exact .throw hs _

/-- Recovering the dataset keeps a reproduction steady. -/
theorem preserves_recoverDataset (hr : Steady directory m reference configs r) :
    Preserves (Steady directory m reference configs) r (recoverDataset directory) := by
  rw [recoverDataset]
  apply Preserves.get_bind
  apply (preserves_ofResult hr _).bind
  intro recorded s hs
  apply (preserves_ofResult hs _).bind
  intro lineage t ht
  apply (preserves_ofResult ht _).bind
  intro chain u hu
  apply (preserves_recoverLeaf hu _ _).bind
  intro source v hv
  apply (preserves_ofResult hv _).bind
  intro replayed v hv
  apply (preserves_ofResult hv _).bind
  intro wrapped v hv
  apply (preserves_ofResult hv _).bind
  intro d v hv
  exact (preserves_reach hv _).bind fun _ w hw => .pure hw d

/-- Training again keeps a reproduction steady. -/
theorem preserves_fromRecord (hr : Steady directory m reference configs r)
    (hextract : m.record.extract = .ok configs) (occasion : Occasion) :
    Preserves (Steady directory m reference configs) r (fromRecord directory occasion) := by
  rw [fromRecord]
  apply (preserves_recoverTrainer hr hextract).bind
  intro handle s hs
  apply (preserves_recoverDataset hs).bind
  intro d t ht
  apply (preserves_train ht occasion handle d).bind
  intro n u hu
  exact (preserves_reach hu _).bind fun _ v hv => .pure hv n

/-- Training again and comparing keeps a reproduction steady. -/
theorem preserves_fromModel (hr : Steady directory m reference configs r)
    (hextract : m.record.extract = .ok configs) (occasion : Occasion) :
    Preserves (Steady directory m reference configs) r (fromModel directory occasion) := by
  rw [fromModel]
  apply Preserves.get_bind
  split
  · exact .throw hr _
  · apply (preserves_fromRecord hr hextract occasion).bind
    intro n s hs
    split
    · exact .throw hs _
    · exact (preserves_reach hs _).bind fun _ t ht => .pure ht n

/-! ## Runs of calls -/

/-- A call keeps a reproduction steady. -/
theorem Call.steady_run (hr : Steady directory m reference configs r)
    (hextract : m.record.extract = .ok configs) {call : Call} {s : Reproduction}
    (h : call.run directory r = some s) : Steady directory m reference configs s := by
  have hdone : ∀ {β : Type} {x : Step β},
      Preserves (Steady directory m reference configs) r x →
        Preserves (Steady directory m reference configs) r (do let _ ← x; pure ()) :=
    fun hx => hx.bind fun _ _ ht => .pure ht ()
  have hpreserves : Preserves (Steady directory m reference configs) r (call.step directory) := by
    cases call with
    | recoverTrainer => exact hdone (preserves_recoverTrainer hr hextract)
    | recoverDataset => exact hdone (preserves_recoverDataset hr)
    | fromRecord occasion => exact hdone (preserves_fromRecord hr hextract occasion)
    | fromModel occasion => exact hdone (preserves_fromModel hr hextract occasion)
    | lookup name =>
        exact hdone (preserves_inWorkshop hr (Workshop.keeps_lookup name hr.served.faithful))
    | allOfClass className =>
        exact hdone (preserves_inWorkshop hr
          (Workshop.keeps_lookupAll _ hr.served.faithful).get_bind)
    | allOfKind kind =>
        exact hdone (preserves_inWorkshop hr
          (Workshop.keeps_lookupAll _ hr.served.faithful).get_bind)
    | train occasion handle d => exact hdone (preserves_train hr occasion handle d)
  rw [Call.run] at h
  rcases hstep : (call.step directory).run r with ⟨found, t⟩
  rw [hstep] at h
  cases found with
  | ok u =>
      rw [← Option.some.inj h]
      exact hpreserves.of_run _ _ hstep (by simp)
  | error e =>
      cases hbreach : e.isBreach with
      | true => simp [hbreach] at h
      | false =>
          simp only [hbreach, Bool.false_eq_true, if_false, Option.some.injEq] at h
          rw [← h]
          apply hpreserves.of_run _ _ hstep
          intro f hf
          rw [← Except.error.inj hf]
          exact hbreach

/-- After any calls a reproduction is steady. -/
theorem steady_after (hr : Steady directory m reference configs r)
    (hextract : m.record.extract = .ok configs) {calls : List Call} {s : Reproduction}
    (h : after directory r calls = some s) : Steady directory m reference configs s := by
  induction calls generalizing r with
  | nil =>
      rw [← Option.some.inj h]
      exact hr
  | cons call rest ih =>
      rw [after, Option.bind_eq_some_iff] at h
      obtain ⟨t, hcall, hrest⟩ := h
      exact ih (Call.steady_run hr hextract hcall) hrest

/-- A reproduction that was just prepared is steady. -/
theorem steady_prepared (directory : Directory) (hextract : m.record.extract = .ok configs)
    (reference : Option Model) :
    Steady directory m reference configs (prepared .standard m reference configs) :=
  ⟨rfl, rfl, Workshop.served_holding directory (Record.nodup_configurationNames hextract), .inl rfl⟩

end Reproduction
end Retrace
