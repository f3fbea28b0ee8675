import Retrace.Proofs.RepeatedReproduction
import Retrace.Proofs.ReproductionUses

/-!
# Stages of a reproduction

A reproduction says how far it came.  Each step says so when it ends well, and a step that fails
leaves what was said before.  So after a comparison that fails the reproduction says how far the
comparison came, unless already the recovery of the trainer failed: then it says what was said
before, which after an earlier comparison that ended well is that the model is validated.

Main results:

- Theorem `stage_of_run_fromModel`: what a comparison that fails leaves of the stage.
- Theorem `exists_validation`: a reproduction is validated by a comparison that ended well.
- Theorem `validated_after_failure_iff`: when a comparison that fails leaves a validated
  reproduction.
- Theorem `validated_after_failure`: this happens.
-/

namespace Retrace
namespace Reproduction

variable {β γ : Type} {directory : Directory} {r s : Reproduction}

/-! ## Steps that reach a stage -/

/-- Whether a step reaches a stage when it ends well, and leaves the stage as it was when it
fails. -/
structure Reaches (stage : Stage) (r : Reproduction) (x : Step β) : Prop where
  ok : ∀ b s, x.run r = (.ok b, s) → s.stage = stage
  error : ∀ e s, x.run r = (.error e, s) → s.stage = r.stage

namespace Reaches

variable {stage : Stage} {x : Step β}

theorem throw (e : Error) : Reaches stage r (MonadExcept.throw e : Step β) := by
  constructor
  · intro b s hrun
    rw [run_throw] at hrun
    exact absurd (Prod.mk.inj hrun).1 (by simp)
  · intro f s hrun
    rw [run_throw] at hrun
    rw [(Prod.mk.inj hrun).2]

/-- A step that ends at a stage reaches it. -/
theorem reach_bind (b : β) : Reaches stage r (reach stage >>= fun _ => pure b) := by
  constructor
  · intro c s hrun
    exact (congrArg Reproduction.stage (Prod.mk.inj hrun).2).symm
  · intro e s hrun
    exact absurd (Prod.mk.inj hrun).1 (by simp)

theorem get_bind {f : Reproduction → Step β} (h : Reaches stage r (f r)) :
    Reaches stage r (get >>= f) := by
  constructor
  · intro b s hrun
    exact h.ok b s (by rwa [run_get_bind] at hrun)
  · intro e s hrun
    exact h.error e s (by rwa [run_get_bind] at hrun)

/-- A stage is reached behind what leaves the stage as it was. -/
theorem bind {f : β → Step γ} (h : Retains Reproduction.stage r x)
    (hnext : ∀ b t, Reaches stage t (f b)) : Reaches stage r (x >>= f) := by
  rw [Retains] at h
  rcases hx : x.run r with ⟨found, t⟩
  rw [hx] at h
  cases found with
  | error e =>
      constructor
      · intro c s hrun
        rw [run_bind_error hx] at hrun
        exact absurd (Prod.mk.inj hrun).1 (by simp)
      · intro f s hrun
        rw [run_bind_error hx] at hrun
        rw [← (Prod.mk.inj hrun).2]
        exact h
  | ok b =>
      constructor
      · intro c s hrun
        rw [run_bind_ok hx] at hrun
        exact (hnext b t).ok c s hrun
      · intro e s hrun
        rw [run_bind_ok hx] at hrun
        exact ((hnext b t).error e s hrun).trans h

end Reaches

/-! ## Recovering -/

/-- The stage does not depend on what the workshop has made. -/
theorem overlooks_stage : Overlooks Reproduction.stage :=
  fun _ _ _ => rfl

/-- Work in the workshop leaves the stage. -/
theorem retains_stage_inWorkshop (work : Work β) (r : Reproduction) :
    Retains Reproduction.stage r (inWorkshop work) := by
  rw [Retains, run_inWorkshop]

theorem retains_stage_restoreCounts (rows : List (Nat × Occurrence)) (r : Reproduction) :
    Retains Reproduction.stage r (restoreCounts rows) := by
  induction rows generalizing r with
  | nil => exact .pure ()
  | cons row rest ih =>
      rw [restoreCounts]
      split
      · simp only
        split
        · exact Retains.throw _
        · split
          · exact Retains.throw _
          · exact (retains_stage_inWorkshop _ r).bind fun _ t _ => ih t
      · exact ih r

/-- Recovering the trainer reaches its stage or leaves the stage. -/
theorem reaches_recoverTrainer (r : Reproduction) :
    Reaches .trainerRecovered r (recoverTrainer directory) := by
  rw [recoverTrainer]
  apply Reaches.get_bind
  apply Reaches.bind (retains_ofResult _ r _)
  intro own s
  split
  · exact Reaches.throw _
  · apply Reaches.bind (retains_stage_restoreCounts _ s)
    intro _ t
    split
    · exact Reaches.throw _
    · apply Reaches.bind (retains_stage_inWorkshop _ t)
      intro found u
      split
      · exact .throw _
      · exact .reach_bind _

theorem reaches_recoverDataset (r : Reproduction) :
    Reaches .datasetRecovered r (recoverDataset directory) := by
  rw [recoverDataset]
  apply Reaches.get_bind
  apply Reaches.bind (retains_ofResult _ r _)
  intro recorded s
  apply Reaches.bind (retains_ofResult _ s _)
  intro lineage t
  apply Reaches.bind (retains_ofResult _ t _)
  intro chain u
  apply Reaches.bind (retains_recoverLeaf overlooks_stage u _ _)
  intro source v
  apply Reaches.bind (retains_ofResult _ v _)
  intro replayed v
  apply Reaches.bind (retains_ofResult _ v _)
  intro wrapped v
  apply Reaches.bind (retains_ofResult _ v _)
  intro d v
  exact .reach_bind d

/-! ## Training again and comparing -/

/-- The stages at which a training may stop that has recovered its trainer. -/
def Underway (stage : Stage) : Prop :=
  stage = .trainerRecovered ∨ stage = .datasetRecovered ∨ stage = .retrained

/-- A training that has stopped underway is not validated. -/
theorem Underway.ne_validated {stage : Stage} (h : Underway stage) : stage ≠ .validated := by
  rintro rfl
  simp [Underway] at h

/-- Whether the recovery of the trainer fails. -/
def LacksTrainer (directory : Directory) (r : Reproduction) : Prop :=
  ∃ e, ((recoverTrainer directory).run r).1 = .error e

/-- A training that fails either lacks its trainer and leaves the stage as it was, or stops
underway; one that ends well reaches its stage. -/
theorem stage_of_run_fromRecord {occasion : Occasion} {found : Result Model}
    (h : (fromRecord directory occasion).run r = (found, s)) :
    (∀ n, found = .ok n → ¬LacksTrainer directory r ∧ s.stage = .retrained) ∧
      ∀ e, found = .error e → LacksTrainer directory r ∧ s.stage = r.stage ∨
        ¬LacksTrainer directory r ∧ Underway s.stage := by
  rw [fromRecord] at h
  rcases htrainer : (recoverTrainer directory).run r with ⟨first, t⟩
  have hreaches : Reaches .trainerRecovered r (recoverTrainer directory) :=
    reaches_recoverTrainer r
  cases first with
  | error e =>
      have hlacks : LacksTrainer directory r := ⟨e, by rw [htrainer]⟩
      rw [run_bind_error htrainer] at h
      obtain ⟨rfl, rfl⟩ := Prod.mk.inj h
      exact ⟨by simp, fun f _ => .inl ⟨hlacks, hreaches.error e t htrainer⟩⟩
  | ok handle =>
      have hhas : ¬LacksTrainer directory r := by
        rintro ⟨e, he⟩
        rw [htrainer] at he
        exact absurd he (by simp)
      have hstage := hreaches.ok handle t htrainer
      rw [run_bind_ok htrainer] at h
      rcases hdataset : (recoverDataset directory).run t with ⟨second, u⟩
      have hdatasets : Reaches .datasetRecovered t (recoverDataset directory) :=
        reaches_recoverDataset t
      cases second with
      | error e =>
          rw [run_bind_error hdataset] at h
          obtain ⟨rfl, rfl⟩ := Prod.mk.inj h
          refine ⟨by simp, fun f _ => .inr ⟨hhas, .inl ?_⟩⟩
          rw [hdatasets.error e u hdataset, hstage]
      | ok d =>
          rw [run_bind_ok hdataset] at h
          have hend : Reaches .retrained u (do
              let n ← inWorkshop (Workshop.train occasion handle d)
              reach .retrained
              return n) :=
            Reaches.bind (retains_stage_inWorkshop _ u) fun n v => .reach_bind n
          constructor
          · rintro n rfl
            exact ⟨hhas, hend.ok n s h⟩
          · rintro e rfl
            refine .inr ⟨hhas, .inr (.inl ?_)⟩
            rw [hend.error e s h, hdatasets.ok d u hdataset]

/-- A comparison that fails either lacks its trainer and leaves the stage as it was, or stops
underway; one that ends well validates. -/
theorem stage_of_run_fromModel {occasion : Occasion} {reference : Model} {found : Result Model}
    (hreference : r.reference = some reference)
    (h : (fromModel directory occasion).run r = (found, s)) :
    (∀ n, found = .ok n → s.stage = .validated) ∧
      ∀ e, found = .error e → LacksTrainer directory r ∧ s.stage = r.stage ∨
        ¬LacksTrainer directory r ∧ Underway s.stage := by
  rw [fromModel, run_get_bind, hreference] at h
  simp only at h
  rcases htrain : (fromRecord directory occasion).run r with ⟨first, t⟩
  obtain ⟨hwell, hfails⟩ := stage_of_run_fromRecord htrain
  cases first with
  | error e =>
      rw [run_bind_error htrain] at h
      obtain ⟨rfl, rfl⟩ := Prod.mk.inj h
      exact ⟨by simp, fun f _ => hfails e rfl⟩
  | ok n =>
      obtain ⟨hhas, hstage⟩ := hwell n rfl
      rw [run_bind_ok htrain] at h
      split at h
      · obtain ⟨rfl, rfl⟩ := Prod.mk.inj h
        exact ⟨by simp, fun f _ => .inr ⟨hhas, .inr (.inr hstage)⟩⟩
      · obtain ⟨rfl, rfl⟩ := Prod.mk.inj h
        exact ⟨fun _ _ => rfl, by simp⟩

/-! ## Uses -/

/-- What a step yields does not matter to where it ends. -/
theorem snd_run_discard (x : Step β) (r : Reproduction) :
    ((do
      let _ ← x
      return () : Step Unit).run r).2 = (x.run r).2 := by
  rw [run_bind]
  rcases x.run r with ⟨found, t⟩
  cases found <;> rfl

/-- A step that reaches another stage does not validate. -/
theorem Reaches.validated {stage : Stage} {x : Step β} (h : Reaches stage r x)
    (hstage : stage ≠ .validated) (hvalidated : (x.run r).2.stage = .validated) :
    r.stage = .validated := by
  rcases hx : x.run r with ⟨found, t⟩
  rw [hx] at hvalidated
  cases found with
  | error e => rw [← h.error e t hx, hvalidated]
  | ok b => exact absurd ((h.ok b t hx).symm.trans hvalidated) hstage

/-- A use after which a reproduction is validated found it so, or is a comparison that ended
well. -/
theorem validated_next (use : Use) (h : (use.next r).stage = .validated) :
    r.stage = .validated ∨ ∃ files occasion n, use = .call files (.fromModel occasion) ∧
      ((fromModel files occasion).run r).1 = .ok n := by
  have hwork : ∀ {β : Type} (work : Work β), ((inWorkshop work).run r).2.stage = r.stage :=
    fun work => retains_stage_inWorkshop work r
  cases use with
  | override name key value => exact .inl ((hwork _).symm.trans h)
  | relocate path =>
      rw [Use.next, Use.step, snd_run_discard, relocate, run_get_bind] at h
      refine .inl ((Retains.bind (retains_stage_inWorkshop _ r) fun _ _ _ => ?_).symm.trans h)
      exact .pure _
  | call files c =>
      rw [Use.next, Use.step] at h
      -- every other call leaves the stage as it is or reaches one before the last
      cases c with
      | recoverTrainer =>
          rw [Call.step, snd_run_discard] at h
          exact .inl ((reaches_recoverTrainer r).validated (by decide) h)
      | recoverDataset =>
          rw [Call.step, snd_run_discard] at h
          exact .inl ((reaches_recoverDataset r).validated (by decide) h)
      | fromRecord occasion =>
          rw [Call.step, snd_run_discard] at h
          rcases hrun : (fromRecord files occasion).run r with ⟨found, t⟩
          rw [hrun] at h
          obtain ⟨hwell, hfails⟩ := stage_of_run_fromRecord hrun
          cases found with
          | ok n => exact absurd ((hwell n rfl).2.symm.trans h) (by decide)
          | error e =>
              rcases hfails e rfl with ⟨-, hsame⟩ | ⟨-, hunderway⟩
              · exact .inl (hsame.symm.trans h)
              · exact absurd h hunderway.ne_validated
      | fromModel occasion =>
          rw [Call.step, snd_run_discard] at h
          rcases hrun : (fromModel files occasion).run r with ⟨found, t⟩
          cases found with
          | ok n => exact .inr ⟨files, occasion, n, rfl, by rw [hrun]⟩
          | error e =>
              refine .inl ?_
              rw [hrun] at h
              cases hreference : r.reference with
              | none =>
                  rw [fromModel, run_get_bind, hreference] at hrun
                  rw [(Prod.mk.inj hrun).2, h]
              | some reference =>
                  rcases (stage_of_run_fromModel hreference hrun).2 e rfl with
                    ⟨-, hsame⟩ | ⟨-, hunderway⟩
                  · exact hsame.symm.trans h
                  · exact absurd h hunderway.ne_validated
      | lookup | allOfClass | allOfKind | train =>
          rw [Call.step, snd_run_discard] at h
          exact .inl ((hwork _).symm.trans h)

/-- A reproduction that uses leave validated was so before, or one of them was a comparison that
ended well. -/
theorem exists_validation {uses : List Use} (h : (afterUses r uses).stage = .validated) :
    r.stage = .validated ∨ ∃ earlier rest files occasion n,
      uses = earlier ++ .call files (.fromModel occasion) :: rest ∧
        ((fromModel files occasion).run (afterUses r earlier)).1 = .ok n := by
  induction uses using List.reverseRecOn with
  | nil => exact .inl h
  | append_singleton earlier use ih =>
      rw [afterUses, List.foldl_append] at h
      rcases validated_next use h with hbefore | ⟨files, occasion, n, rfl, hwell⟩
      · rcases ih hbefore with hfirst | ⟨before, rest, files, occasion, n, rfl, hwell⟩
        · exact .inl hfirst
        · exact .inr ⟨before, rest ++ [use], files, occasion, n, by simp, hwell⟩
      · exact .inr ⟨earlier, [], files, occasion, n, rfl, hwell⟩

/-! ## Comparisons that fail -/

/-- A reproduction of a model is prepared from its record, with the model as reference. -/
theorem exists_prepared_of_ofModel {m : Model} {catalog : Catalog} (h : ofModel m catalog = .ok r) :
    ∃ configs, m.record.record.extract = .ok configs ∧
      r = prepared catalog m.record (some m) configs := by
  rw [ofModel] at h
  cases hr : ofRecord m.record catalog with
  | error e => simp [hr, Except.map] at h
  | ok first =>
      obtain ⟨configs, hextract, rfl⟩ := eq_of_ofRecord hr
      rw [hr] at h
      exact ⟨configs, hextract, (Except.ok.inj h).symm⟩

/-- However a reproduction that was built from a model is used, a comparison that fails leaves it
validated exactly if it was validated before and the comparison lacks its trainer; then an earlier
comparison ended well. -/
theorem validated_after_failure_iff {m : Model} {catalog : Catalog} (hr : ofModel m catalog = .ok r)
    (uses : List Use) {occasion : Occasion} {e : Error}
    (h : (fromModel directory occasion).run (afterUses r uses) = (.error e, s)) :
    (s.stage = .validated ↔ (afterUses r uses).stage = .validated ∧
      LacksTrainer directory (afterUses r uses)) ∧
    (s.stage = .validated → ∃ earlier rest files other n,
      uses = earlier ++ .call files (.fromModel other) :: rest ∧
        ((fromModel files other).run (afterUses r earlier)).1 = .ok n) := by
  obtain ⟨configs, hextract, rfl⟩ := exists_prepared_of_ofModel hr
  have hreference : (afterUses (prepared catalog m.record (some m) configs) uses).reference =
      some m := by
    have hlasting := lasting_afterUses (r := prepared catalog m.record (some m) configs)
      (Record.nodup_configurationNames hextract) uses
    exact congrArg (fun view => view.2.1) hlasting
  have hiff : s.stage = .validated ↔
      (afterUses (prepared catalog m.record (some m) configs) uses).stage = .validated ∧
        LacksTrainer directory (afterUses (prepared catalog m.record (some m) configs) uses) := by
    rcases (stage_of_run_fromModel hreference h).2 e rfl with ⟨hlacks, hsame⟩ | ⟨hhas, hunderway⟩
    · rw [hsame, and_iff_left hlacks]
    · exact ⟨fun hvalidated => absurd hvalidated hunderway.ne_validated,
        fun hboth => absurd hboth.2 hhas⟩
  refine ⟨hiff, fun hvalidated => ?_⟩
  rcases exists_validation (hiff.1 hvalidated).1 with hfirst | hearlier
  · exact absurd hfirst (by simp [prepared])
  · exact hearlier

/-- A comparison on the points, and then an override of the penalty of the trainer by a word. -/
def mistaken : List Use :=
  [.call axes (.fromModel (onLinux 10)), .override "svmtrainer-7" "c" (.value "oops")]

/-- After the mistaken override the comparison fails and leaves the reproduction validated. -/
theorem run_fromModel_mistaken :
    ∃ m r s e, ofModel m .standard = .ok r ∧
      (fromModel axes (onLinux 20)).run (afterUses r mistaken) = (.error e, s) ∧
      s.stage = .validated := by
  have hruns : ((axesPlan.load axes).toOption.any fun d =>
      (lenient.train (onLinux 0) d).1.toOption.any fun m =>
        (ofModel m .standard).toOption.any fun r =>
          let (found, s) := (fromModel axes (onLinux 20)).run (afterUses r mistaken)
          !found.isOk && decide (s.stage = .validated)) = true := by decide +kernel
  simp only [Option.any_eq_true, toOption_eq_some_iff] at hruns
  obtain ⟨d, -, m, -, r, hr, hruns⟩ := hruns
  rcases hrun : (fromModel axes (onLinux 20)).run (afterUses r mistaken) with ⟨found, s⟩
  rw [hrun] at hruns
  simp only [Bool.and_eq_true, Bool.not_eq_true', decide_eq_true_eq] at hruns
  cases found with
  | ok n => simp [Except.isOk, Except.toBool] at hruns
  | error e => exact ⟨m, r, s, e, hr, hrun, hruns.2⟩

/-- A comparison that fails may leave a reproduction validated. -/
theorem validated_after_failure :
    ¬∀ (m : Model) (catalog : Catalog) (r s : Reproduction) (uses : List Use)
      (directory : Directory) (occasion : Occasion) (e : Error), ofModel m catalog = .ok r →
        (fromModel directory occasion).run (afterUses r uses) = (.error e, s) →
          s.stage ≠ .validated := by
  intro hclaim
  obtain ⟨m, r, s, e, hr, hrun, hvalidated⟩ := run_fromModel_mistaken
  exact hclaim m .standard r s mistaken axes (onLinux 20) e hr hrun hvalidated

/-- After the mistaken override the reproduction was validated, and the comparison lacks its
trainer. -/
theorem validated_after_failure_iff_mistaken :
    ∃ m r s e, ofModel m .standard = .ok r ∧
      (fromModel axes (onLinux 20)).run (afterUses r mistaken) = (.error e, s) ∧
      s.stage = .validated ∧ (afterUses r mistaken).stage = .validated ∧
      LacksTrainer axes (afterUses r mistaken) := by
  obtain ⟨m, r, s, e, hr, hrun, hvalidated⟩ := run_fromModel_mistaken
  obtain ⟨hiff, -⟩ := validated_after_failure_iff hr mistaken hrun
  exact ⟨m, r, s, e, hr, hrun, hvalidated, hiff.1 hvalidated⟩

end Reproduction
end Retrace
