import Retrace.CommandLine.Command
import Retrace.Folder
import Retrace.Proofs.KernelMemory
import Retrace.Proofs.Renumbering
import Retrace.Proofs.TrainedModels
import Retrace.Proofs.Workshop

/-!
# The accuracy that is printed

The commands that print an accuracy take the samples in the numbering of their file, while a model
that was trained with a threshold knows the numbering of the filtered dataset.  What is printed is
the share of the samples of the file that the model predicts right as they stand; this is the share
in the numbering of the model where the first features are kept, and in particular without a
threshold.

Main results:

- Theorem `accuracy_in_model_numbering`: what training and evaluating print.
-/

namespace Retrace

/-- What follows a step is run from where the step ended. -/
theorem exists_of_run_bind {ε σ β γ : Type} {x : ExceptT ε (StateM σ) β}
    {f : β → ExceptT ε (StateM σ) γ} {s t : σ} {c : γ} (h : (x >>= f).run s = (.ok c, t)) :
    ∃ b u, x.run s = (.ok b, u) ∧ (f b).run u = (.ok c, t) := by
  rw [run_bind] at h
  split at h
  · rename_i b u hx
    exact ⟨b, u, hx, h⟩
  · exact absurd (Prod.mk.inj h).1 (by simp)

namespace CommandLine
namespace Run

/-! ## Steps -/

/-- A run that goes on from a result had one. -/
theorem exists_of_run_ofResult_bind {β γ : Type} {r : Result β} {f : β → Run γ} {s t : Session}
    {c : γ} (h : (ofResult r >>= f).run s = (.ok c, t)) :
    ∃ b, r = .ok b ∧ (f b).run s = (.ok c, t) := by
  cases r with
  | error e => exact absurd (Prod.mk.inj h).1 (by simp)
  | ok b => exact ⟨b, rfl, h⟩

theorem run_ofResult_bind {β γ : Type} (b : β) (f : β → Run γ) (s : Session) :
    (ofResult (.ok b) >>= f).run s = (f b).run s := rfl

/-- A line is written before a run goes on. -/
theorem run_put_bind {β : Type} (line : Line) (f : Unit → Run β) (s : Session) :
    (put line >>= f).run s = (f ()).run { s with lines := s.lines ++ [line] } := rfl

/-- What is said is written before a run goes on. -/
theorem run_say_bind {β : Type} (line : String) (f : Unit → Run β) (s : Session) :
    (say line >>= f).run s = (f ()).run { s with lines := s.lines ++ [.text line] } := rfl

/-- Guessing a format leaves the directory. -/
theorem directory_guessFormat {path : OsPath} {s t : Session} {format : DataFormat}
    (h : (guessFormat path).run s = (.ok format, t)) : t.directory = s.directory := by
  rw [guessFormat] at h
  split at h
  · rw [warn, run_put_bind] at h
    rw [← (Prod.mk.inj h).2]
  · split at h
    · rw [← (Prod.mk.inj h).2]
    · split at h
      · rw [← (Prod.mk.inj h).2]
      · rw [warn, run_put_bind] at h
        rw [← (Prod.mk.inj h).2]

/-- Choosing a format leaves the directory. -/
theorem directory_chooseFormat {path : OsPath} {format : String} {s t : Session}
    {found : DataFormat} (h : (chooseFormat path format).run s = (.ok found, t)) :
    t.directory = s.directory := by
  rw [chooseFormat] at h
  split at h
  · exact directory_guessFormat h
  · split at h
    · rw [← (Prod.mk.inj h).2]
    · split at h
      · rw [← (Prod.mk.inj h).2]
      · exact absurd (Prod.mk.inj h).1 (by simp)

/-- Opening a source reads a file in some format. -/
theorem exists_ofFile_of_openSource {path : OsPath} {format : String} {s t : Session}
    {source : DataSource}
    (h : (openSource path format).run s = (.ok source, t)) :
    t.directory = s.directory ∧
      ∃ found, DataSource.ofFile found s.directory path = .ok source := by
  rw [openSource] at h
  obtain ⟨found, u, hfound, h⟩ := exists_of_run_bind h
  have hdirectory := directory_chooseFormat hfound
  rw [run_get_bind] at h
  cases hfile : DataSource.ofFile found u.directory path with
  | error e =>
      rw [hfile] at h
      exact absurd (Prod.mk.inj h).1 (by simp)
  | ok other =>
      rw [hfile] at h
      obtain ⟨hsource, hend⟩ := Prod.mk.inj h
      rw [← hend, ← Except.ok.inj hsource]
      exact ⟨hdirectory, found, hdirectory ▸ hfile⟩

/-- A run that goes on after saving has saved. -/
theorem exists_of_run_save_bind {β : Type} {occasion : Occasion} {path : OsPath} {m : Model}
    {f : Unit → Run β} {s t : Session} {c : β}
    (h : (save occasion path m >>= f).run s = (.ok c, t)) :
    ∃ files, ModelFile.save s.directory path m occasion = .ok files ∧
      (f ()).run { s with directory := files } = (.ok c, t) := by
  rw [save, bind_assoc, run_get_bind, bind_assoc] at h
  exact exists_of_run_ofResult_bind h

/-- The accuracy is the share of samples that are labelled rightly. -/
theorem accuracy_of_examine {m : Model} {source : DataSource} {counts : Confusion}
    (h : examine m source = .ok counts) : counts.accuracy = m.rightShare source.samples := by
  obtain ⟨d, hd, hcounts⟩ := exists_of_bind_eq_ok h
  rw [Model.accuracy_of_evaluate hcounts, Dataset.eq_of_ofSource hd]
  rfl

/-! ## Training -/

/-- What a request learns from a part of its data. -/
def Learns (occasion : Occasion) (q : TrainingRequest) (part : DataSource) (m : Model) : Prop :=
  ∃ kernel d after, Kernel.ofName q.kernel q.gamma q.degree q.coef0 = .ok kernel ∧
    gather part q.threshold = .ok d ∧
    (Trainer.mk q.settings kernel q.seed 0).train occasion d = (.ok m, after)

/-- The numbers that the features of a model have in its file. -/
def keptIds (q : TrainingRequest) (part : DataSource) : List Nat :=
  (FeatureMap.observe part.names part.samples).keptIds q.threshold

/-- The samples that are gathered from a part fit the features that are kept. -/
theorem fits_gather {part : DataSource} {threshold : Option UInt64} {d : Dataset}
    (h : gather part threshold = .ok d) (hpart : ∀ s ∈ part.samples, s.Fits part.names.length) :
    ∀ s ∈ d.samples,
      s.Fits ((FeatureMap.observe part.names part.samples).keptIds threshold).length := by
  obtain ⟨whole, hwhole, h⟩ := exists_of_bind_eq_ok h
  have hobserved := Dataset.eq_of_ofSource hwhole
  cases threshold with
  | none =>
      obtain rfl : whole = d := Except.ok.inj h
      rw [FeatureMap.keptIds_observe_none, List.length_range, hobserved]
      exact hpart
  | some n =>
      have hfits := Dataset.fits_atLeast h
      have hsize : d.features.size =
          ((FeatureMap.observe part.names part.samples).keptIds (some n)).length := by
        rw [Dataset.eq_of_atLeast h, hobserved]
        simp [Dataset.observe, Dataset.keptFeatures, FeatureMap.keptIds]
      rwa [hsize] at hfits

theorem Learns.unique {occasion : Occasion} {q : TrainingRequest} {part : DataSource} {m n : Model}
    (hm : Learns occasion q part m) (hn : Learns occasion q part n) : m = n := by
  obtain ⟨kernel, d, after, hkernel, hd, htrain⟩ := hm
  obtain ⟨kernel', d', after', hkernel', hd', htrain'⟩ := hn
  obtain rfl : kernel = kernel' := Except.ok.inj (hkernel.symm.trans hkernel')
  obtain rfl : d = d' := Except.ok.inj (hd.symm.trans hd')
  exact Except.ok.inj (Prod.mk.inj (htrain.symm.trans htrain')).1

/-- The support vectors of what is learned fit the features that are kept. -/
theorem Learns.index_lt {occasion : Occasion} {q : TrainingRequest} {part : DataSource} {m : Model}
    (h : Learns occasion q part m) (hpart : ∀ s ∈ part.samples, s.Fits part.names.length) :
    ∀ x ∈ m.supportVectors, ∀ i ∈ x.indices, i < (keptIds q part).length := by
  obtain ⟨kernel, d, after, -, hd, htrain⟩ := h
  intro x hx i hi
  obtain ⟨s, hs, rfl⟩ := Trainer.exists_sample_of_support htrain hx
  exact (fits_gather hd hpart s hs).index_lt i hi

/-- Without a threshold a model sees samples of its columns in their place. -/
theorem seesInPlace_of_none {q : TrainingRequest} {part : DataSource}
    (hq : q.threshold = none) (m : Model) {samples : List (Sample Float)}
    (hsamples : ∀ s ∈ samples, s.Fits part.names.length) :
    m.SeesInPlace (keptIds q part) samples := by
  have hids : keptIds q part = List.range part.names.length := by
    rw [keptIds, hq, FeatureMap.keptIds_observe_none]
  rw [hids]
  exact ⟨by rw [List.length_range], fun s hs => .inr (by simpa using (hsamples s hs).index_lt)⟩

/-- The share of right predictions is the same in the numbering of a model where nothing is left out
or the first features are kept. -/
theorem Learns.rightShare_renumbered {occasion : Occasion} {q : TrainingRequest} {part : DataSource}
    {m : Model} (h : Learns occasion q part m)
    (hpart : ∀ s ∈ part.samples, s.Fits part.names.length) {samples : List (Sample Float)}
    (hsamples : ∀ s ∈ samples, s.Fits part.names.length)
    (hsees : q.threshold = none ∨ m.SeesInPlace (keptIds q part) samples) :
    m.rightShare (samples.map (Sample.renumbered (keptIds q part))) = m.rightShare samples := by
  apply Model.rightShare_renumbered (h.index_lt hpart) fun s hs => (hsamples s hs).wellFormed
  rcases hsees with hnone | hsees
  · exact seesInPlace_of_none hnone m hsamples
  · exact hsees

/-- Examining samples that were held back prints the share that is predicted right. -/
theorem lines_of_run_examineHeldOut {m : Model} {test : DataSource} {s t : Session}
    (h : (examineHeldOut m test).run s = (.ok (), t)) :
    t.directory = s.directory ∧ (test.samples ≠ [] → t.lines = s.lines ++
      [.text ("Held-out accuracy: " ++ percent (m.rightShare test.samples))]) := by
  rw [examineHeldOut] at h
  split at h
  · rename_i hempty
    rw [← (Prod.mk.inj h).2]
    exact ⟨rfl, fun hne => absurd (List.isEmpty_iff.1 hempty) hne⟩
  · obtain ⟨counts, hcounts, h⟩ := exists_of_run_ofResult_bind h
    rw [← (Prod.mk.inj h).2, accuracy_of_examine hcounts]
    exact ⟨rfl, fun _ => rfl⟩

/-- Training prints the share of the samples held back that the model predicts right. -/
theorem exists_of_run_train {occasion : Occasion} {q : TrainingRequest} {s t : Session}
    (h : (train occasion q).run s = (.ok (), t)) :
    ∃ source part held m files,
      ((openSource q.data q.format).run s).1 = .ok source ∧
      divide source q.splitSeed q.proportion = .ok (part, held) ∧
      Learns occasion q part m ∧
      ModelFile.save s.directory q.output m occasion = .ok files ∧
      t.directory = files ∧
      ∀ test, held = some test → test.samples ≠ [] → ∃ before, t.lines = before ++
        [.text ("Held-out accuracy: " ++ percent (m.rightShare test.samples))] := by
  rw [train] at h
  obtain ⟨source, u, hsource, h⟩ := exists_of_run_bind h
  obtain ⟨hdirectory, -⟩ := exists_ofFile_of_openSource hsource
  obtain ⟨kernel, hkernel, h⟩ := exists_of_run_ofResult_bind h
  obtain ⟨⟨part, held⟩, hparts, h⟩ := exists_of_run_ofResult_bind h
  obtain ⟨d, hd, h⟩ := exists_of_run_ofResult_bind h
  obtain ⟨m, hm, h⟩ := exists_of_run_ofResult_bind h
  obtain ⟨files, hfiles, h⟩ := exists_of_run_save_bind h
  refine ⟨source, part, held, m, files, by rw [hsource], hparts, ?_, hdirectory ▸ hfiles, ?_⟩
  · cases hname : Kernel.ofName q.kernel q.gamma q.degree q.coef0 with
    | error fault => simp [hname, Except.mapError] at hkernel
    | ok found =>
        simp only [hname, Except.mapError, Except.ok.injEq] at hkernel
        exact ⟨found, d, _, hname, hd, by rw [hkernel]; exact Prod.ext hm rfl⟩
  · rw [run_say_bind, run_put_bind, sketch, bind_assoc, run_say_bind, run_say_bind, run_say_bind]
      at h
    cases held with
    | none =>
        rw [← (Prod.mk.inj h).2]
        exact ⟨rfl, by simp⟩
    | some test =>
        obtain ⟨hfiles, hlines⟩ := lines_of_run_examineHeldOut h
        refine ⟨hfiles, fun other hother hne => ?_⟩
        rw [← Option.some.inj hother] at hne ⊢
        exact ⟨_, hlines hne⟩

/-- Where a path can be written, every model is saved. -/
theorem run_save (occasion : Occasion) {s : Session} {path : OsPath} (m : Model)
    (h : ∀ content, (s.directory.write path content).isOk = true) :
    ∃ t, (save occasion path m).run s = (.ok (), t) := by
  obtain ⟨files, hsave⟩ := ModelFile.exists_save h m occasion
  rw [save, run_get_bind, hsave]
  exact ⟨_, rfl⟩

/-- Training whose steps succeed ends well. -/
theorem exists_run_train {occasion : Occasion} {q : TrainingRequest} {s : Session}
    {source part : DataSource} {held : Option DataSource} {m : Model}
    (hsource : ((openSource q.data q.format).run s).1 = .ok source)
    (hparts : divide source q.splitSeed q.proportion = .ok (part, held))
    (hlearns : Learns occasion q part m)
    (hwrite : ∀ content, (s.directory.write q.output content).isOk = true)
    (hheld : ∀ test, held = some test → (examine m test).isOk = true) :
    ∃ t, (train occasion q).run s = (.ok (), t) := by
  obtain ⟨kernel, d, after, hkernel, hd, hm⟩ := hlearns
  have hopen : (openSource q.data q.format).run s = (.ok source, _) := Prod.ext hsource rfl
  have hdirectory := (exists_ofFile_of_openSource hopen).1
  obtain ⟨v, hsave⟩ := run_save occasion m (hdirectory ▸ hwrite)
  rw [train, run_bind_ok hopen, hkernel]
  simp only [Except.mapError]
  rw [run_ofResult_bind, hparts, run_ofResult_bind]
  simp only
  rw [hd, run_ofResult_bind, hm, run_ofResult_bind, run_bind_ok hsave, run_say_bind, run_put_bind,
    sketch, bind_assoc, run_say_bind, run_say_bind, run_say_bind]
  cases held with
  | none => exact ⟨_, rfl⟩
  | some test =>
      have hexamine := hheld test rfl
      simp only [examineHeldOut]
      split
      · exact ⟨_, rfl⟩
      · cases hcounts : examine m test with
        | error e => simp [hcounts, Except.isOk, Except.toBool] at hexamine
        | ok counts => exact ⟨_, rfl⟩

/-! ## Evaluating -/

theorem exists_run_summarize (m : Model) (s : Session) :
    ∃ t, (summarize m).run s = (.ok (), t) :=
  ⟨_, rfl⟩

/-- Evaluating prints the share of the samples of a file that the model predicts right. -/
theorem exists_of_run_evaluate {q : EvaluationRequest} {s t : Session}
    (h : (evaluate q).run s = (.ok (), t)) :
    ∃ file source counts before, ModelFile.load s.directory q.model = .ok file ∧
      ((openSource q.data q.format).run s).1 = .ok source ∧
      t.lines = before ++
        .text ("  Accuracy: " ++ percent (file.model.rightShare source.samples)) ::
          if q.detailed then [.text "\nDetailed Metrics:", .text counts] else [] := by
  rw [evaluate, load, bind_assoc, run_get_bind] at h
  obtain ⟨file, hfile, h⟩ := exists_of_run_ofResult_bind h
  obtain ⟨source, u, hsource, h⟩ := exists_of_run_bind h
  obtain ⟨counts, hcounts, h⟩ := exists_of_run_ofResult_bind h
  obtain ⟨v, hsummary⟩ := exists_run_summarize file.model
    { u with lines := u.lines ++ [.text "=== Model Evaluation ==="] }
  rw [run_say_bind, run_bind_ok hsummary, run_say_bind, run_say_bind,
    accuracy_of_examine hcounts] at h
  refine ⟨file, source, counts.render, v.lines ++ [.text "\nTest Results:"], hfile,
    by rw [hsource], ?_⟩
  split at h
  · rename_i hdetailed
    rw [run_say_bind] at h
    rw [← (Prod.mk.inj h).2, if_pos hdetailed]
    simp only [List.append_assoc, List.cons_append, List.nil_append]
  · rename_i hdetailed
    rw [← (Prod.mk.inj h).2, if_neg hdetailed]

theorem fits_divide {source part : DataSource} {held : Option DataSource} {seed : UInt64}
    {proportion : Option Float} (h : divide source seed proportion = .ok (part, held))
    (hsource : ∀ s ∈ source.samples, s.Fits source.names.length) :
    (part.names = source.names ∧ ∀ s ∈ part.samples, s.Fits part.names.length) ∧
      ∀ test, held = some test →
        test.names = source.names ∧ ∀ s ∈ test.samples, s.Fits test.names.length := by
  cases proportion with
  | none =>
      obtain ⟨rfl, rfl⟩ := Prod.mk.inj (Except.ok.inj h)
      exact ⟨⟨rfl, hsource⟩, by simp⟩
  | some p =>
      obtain ⟨train, htrain, h⟩ := exists_of_bind_eq_ok h
      obtain ⟨test, htest, h⟩ := exists_of_bind_eq_ok h
      obtain ⟨rfl, rfl⟩ := Prod.mk.inj (Except.ok.inj h)
      refine ⟨DataSource.fits_split htrain hsource, fun other hother => ?_⟩
      rw [← Option.some.inj hother]
      exact DataSource.fits_split htest hsource

end Run

/-! ## Answers -/

open Run (openSource divide gather examine Learns keptIds percent)

/-- A run that ends well is one without an error. -/
theorem exists_run_of_code {occasion : Occasion} {directory : Directory} {request : Request}
    (h : (request.run occasion directory).code = 0) :
    ∃ s, (request.perform occasion).run ⟨directory, []⟩ = (.ok (), s) ∧
      request.run occasion directory = ⟨0, s.lines, s.directory⟩ := by
  rw [Request.run] at h ⊢
  cases hrun : (request.perform occasion).run ⟨directory, []⟩ with
  | mk result s =>
      rw [hrun] at h
      cases result with
      | ok u => exact ⟨s, rfl, rfl⟩
      | error e => cases e <;> simp [Outcome.ofSession, breachCode] at h

/-- A run that ends well ends with code zero. -/
theorem code_of_run {occasion : Occasion} {directory : Directory} {request : Request} {t : Session}
    (h : (request.perform occasion).run ⟨directory, []⟩ = (.ok (), t)) :
    (request.run occasion directory).code = 0 := by
  rw [Request.run, h]
  rfl

/-- Training that ends well prints the share of the samples held back that the model predicts right
as they stand in the file, and evaluating the model on a file with the same columns prints the share
of the samples of that file.  Both are the shares in the numbering of the model if no threshold is
given, or if the first features are kept and the kernel sees nothing of the others. -/
theorem accuracy_in_model_numbering {occasion : Occasion} {directory : Directory}
    {q : TrainingRequest} (h : ((Request.train q).run occasion directory).code = 0) :
    ∃ source part held m,
      ((openSource q.data q.format).run ⟨directory, []⟩).1 = .ok source ∧
      divide source q.splitSeed q.proportion = .ok (part, held) ∧
      Learns occasion q part m ∧
      ModelFile.save directory q.output m occasion =
        .ok ((Request.train q).run occasion directory).directory ∧
      (∀ test, held = some test → test.samples ≠ [] →
        (∃ before, ((Request.train q).run occasion directory).lines =
          before ++ [.text ("Held-out accuracy: " ++ percent (m.rightShare test.samples))]) ∧
        (q.threshold = none ∨ m.SeesInPlace (keptIds q part) test.samples →
          m.rightShare (test.samples.map (Sample.renumbered (keptIds q part))) =
            m.rightShare test.samples)) ∧
      ∀ other files e, ((Request.evaluate e).run other files).code = 0 →
        ∃ file data counts before, ModelFile.load files e.model = .ok file ∧
          ((openSource e.data e.format).run ⟨files, []⟩).1 = .ok data ∧
          (file.model = m → data.names = source.names →
            ((Request.evaluate e).run other files).lines = before ++
              .text ("  Accuracy: " ++ percent (m.rightShare data.samples)) ::
                (if e.detailed then [.text "\nDetailed Metrics:", .text counts] else []) ∧
            (q.threshold = none ∨ m.SeesInPlace (keptIds q part) data.samples →
              m.rightShare (data.samples.map (Sample.renumbered (keptIds q part))) =
                m.rightShare data.samples)) := by
  obtain ⟨s, hrun, hanswer⟩ := exists_run_of_code h
  obtain ⟨source, part, held, m, files, hsource, hparts, hlearns, hfiles, hend, hlines⟩ :=
    Run.exists_of_run_train hrun
  -- what is read from a file fits its columns, as renumbering asks for
  have hfits : ∀ s ∈ source.samples, s.Fits source.names.length := by
    obtain ⟨-, found, hfile⟩ := Run.exists_ofFile_of_openSource (Prod.ext hsource rfl)
    exact DataSource.fits_ofFile hfile
  obtain ⟨⟨hnames, hpart⟩, hheld⟩ := Run.fits_divide hparts hfits
  refine ⟨source, part, held, m, hsource, hparts, hlearns, ?_, fun test htest hne => ⟨?_, ?_⟩, ?_⟩
  · rw [hanswer, hfiles, hend]
  · rw [hanswer]
    exact hlines test htest hne
  · obtain ⟨hsame, hsamples⟩ := hheld test htest
    rw [hsame, ← hnames] at hsamples
    exact hlearns.rightShare_renumbered hpart hsamples
  · intro other files e he
    obtain ⟨t, hevaluate, hprinted⟩ := exists_run_of_code he
    obtain ⟨file, data, counts, before, hfile, hdata, hlines⟩ :=
      Run.exists_of_run_evaluate hevaluate
    refine ⟨file, data, counts, before, hfile, hdata, fun hmodel hcolumns => ⟨?_, ?_⟩⟩
    · rw [hprinted, ← hmodel]
      exact hlines
    · obtain ⟨-, found, hread⟩ := Run.exists_ofFile_of_openSource (Prod.ext hdata rfl)
      have hsamples := DataSource.fits_ofFile hread
      rw [hcolumns, ← hnames] at hsamples
      exact hlearns.rightShare_renumbered hpart hsamples

/-- Train on one half of a file without the features that are never stored there. -/
def halfRequest : TrainingRequest where
  data := .ofText "points.csv"
  output := .ofText "model.json"
  format := "csv"
  settings := .standard
  seed := 12345
  kernel := "linear"
  gamma := 1
  degree := 3
  coef0 := 0
  proportion := some 0.5
  splitSeed := 1
  threshold := some 1

/-- The output of the request can be written. -/
theorem isOk_write_output (f : Folder) (content : ByteArray) :
    (f.directory.write halfRequest.output content).isOk = true :=
  @Folder.isOk_write _ (.ofText "model.json") (by decide +kernel) f content

/-- Whether both halves of a file and what is learned from the first one pass a test. -/
def halvesPass (occasion : Occasion) (directory : Directory)
    (test : DataSource → DataSource → Model → Bool) : Bool :=
  match ((openSource halfRequest.data halfRequest.format).run ⟨directory, []⟩).1 with
  | .error _ => false
  | .ok source =>
      match divide source halfRequest.splitSeed halfRequest.proportion with
      | .ok (part, some held) =>
          match gather part halfRequest.threshold with
          | .error _ => false
          | .ok d =>
              match ((Trainer.mk halfRequest.settings .linear halfRequest.seed 0).train
                  occasion d).1 with
              | .error _ => false
              | .ok m => (examine m held).isOk && test part held m
      | _ => false

/-- Where a test is passed, the training ends well. -/
theorem exists_of_halvesPass {occasion : Occasion} {directory : Directory}
    {test : DataSource → DataSource → Model → Bool}
    (hwrite : ∀ content, (directory.write halfRequest.output content).isOk = true)
    (h : halvesPass occasion directory test = true) :
    ((Request.train halfRequest).run occasion directory).code = 0 ∧
      ∃ source part held m,
        ((openSource halfRequest.data halfRequest.format).run ⟨directory, []⟩).1 = .ok source ∧
        divide source halfRequest.splitSeed halfRequest.proportion = .ok (part, some held) ∧
        Learns occasion halfRequest part m ∧ test part held m = true := by
  rw [halvesPass] at h
  split at h
  · simp at h
  · rename_i source hsource
    split at h
    · rename_i part held hparts
      split at h
      · simp at h
      · rename_i d hd
        split at h
        · simp at h
        · rename_i m hm
          rw [Bool.and_eq_true] at h
          have hlearns : Learns occasion halfRequest part m :=
            ⟨.linear, d, _, rfl, hd, Prod.ext hm rfl⟩
          obtain ⟨t, hrun⟩ := Run.exists_run_train (s := ⟨directory, []⟩) hsource hparts hlearns
            hwrite (fun other hother => Option.some.inj hother ▸ h.1)
          exact ⟨code_of_run hrun, source, part, held, m, hsource, hparts, hlearns, h.2⟩
    · simp at h

/-- Four points whose last feature is never stored. -/
def zeroLast : Directory :=
  Folder.directory ⟨[(.ofText "points.csv", "b,a,label\n2,0,1\n-2,0,-1\n3,0,1\n-3,0,-1\n".toUTF8)]⟩

/-- If the last feature is left out, what is printed is the share in the numbering of the model. -/
theorem accuracy_in_model_numbering_zeroLast :
    ∃ source part test m before,
      ((openSource halfRequest.data halfRequest.format).run ⟨zeroLast, []⟩).1 = .ok source ∧
      divide source halfRequest.splitSeed halfRequest.proportion = .ok (part, some test) ∧
      Learns ⟨⟨0, 0⟩, "linux", "x86_64"⟩ halfRequest part m ∧
      ((Request.train halfRequest).run ⟨⟨0, 0⟩, "linux", "x86_64"⟩ zeroLast).lines = before ++
        [.text ("Held-out accuracy: " ++
          percent (m.rightShare (test.samples.map (Sample.renumbered [0]))))] := by
  have hpass : halvesPass ⟨⟨0, 0⟩, "linux", "x86_64"⟩ zeroLast (fun part held _ =>
      decide (keptIds halfRequest part = [0]) && !held.samples.isEmpty) = true := by
    simp only [halvesPass, Trainer.fst_train]
    decide +kernel
  have hwrite : ∀ content, (zeroLast.write halfRequest.output content).isOk = true :=
    isOk_write_output _
  obtain ⟨hcode, source, part, test, -, hsource, hparts, -, hfacts⟩ :=
    exists_of_halvesPass hwrite hpass
  obtain ⟨source', part', held, m, hsource', hparts', hlearns, -, hheld, -⟩ :=
    accuracy_in_model_numbering hcode
  obtain rfl : source = source' := Except.ok.inj (hsource.symm.trans hsource')
  obtain ⟨rfl, rfl⟩ := Prod.mk.inj (Except.ok.inj (hparts.symm.trans hparts'))
  simp only [Bool.and_eq_true, decide_eq_true_eq, Bool.not_eq_true'] at hfacts
  obtain ⟨hids, hne⟩ := hfacts
  obtain ⟨⟨before, hlines⟩, hshare⟩ := hheld test rfl (by simpa using hne)
  have hkernel : m.kernel = .linear := by
    obtain ⟨kernel, d, after, hname, -, htrain⟩ := hlearns
    obtain ⟨solution, -, rfl⟩ := Trainer.exists_solution_of_train htrain
    exact (Except.ok.inj hname).symm
  have hsees : m.SeesInPlace (keptIds halfRequest part) test.samples := by
    rw [hids]
    exact ⟨rfl, fun s _ => .inl (by rw [hkernel]; rfl)⟩
  rw [hids] at hshare hsees
  exact ⟨source, part, test, m, before, hsource, hparts, hlearns,
    by rw [hshare (.inr hsees)]; exact hlines⟩

/-- The same points with the feature that is never stored in front. -/
def zeroFirst : Directory :=
  Folder.directory ⟨[(.ofText "points.csv", "a,b,label\n0,2,1\n0,-2,-1\n0,3,1\n0,-3,-1\n".toUTF8)]⟩

/-- If the first feature is left out, half of the points that were held back are said to be right,
while all of them are in the numbering of the model. -/
theorem accuracy_not_in_model_numbering_zeroFirst :
    ∃ source part test m before,
      ((openSource halfRequest.data halfRequest.format).run ⟨zeroFirst, []⟩).1 = .ok source ∧
      divide source halfRequest.splitSeed halfRequest.proportion = .ok (part, some test) ∧
      Learns ⟨⟨0, 0⟩, "linux", "x86_64"⟩ halfRequest part m ∧
      ((Request.train halfRequest).run ⟨⟨0, 0⟩, "linux", "x86_64"⟩ zeroFirst).lines = before ++
        [.text ("Held-out accuracy: " ++ "50.00%")] ∧
      percent (m.rightShare (test.samples.map (Sample.renumbered (keptIds halfRequest part)))) =
        "100.00%" := by
  have hpass : halvesPass ⟨⟨0, 0⟩, "linux", "x86_64"⟩ zeroFirst (fun part held m =>
      !held.samples.isEmpty && percent (m.rightShare held.samples) == "50.00%" &&
        percent (m.rightShare (held.samples.map (Sample.renumbered (keptIds halfRequest part)))) ==
          "100.00%") = true := by
    simp only [halvesPass, Trainer.fst_train]
    decide +kernel
  have hwrite : ∀ content, (zeroFirst.write halfRequest.output content).isOk = true :=
    isOk_write_output _
  obtain ⟨hcode, source, part, test, m, hsource, hparts, hlearns, hfacts⟩ :=
    exists_of_halvesPass hwrite hpass
  simp only [Bool.and_eq_true, Bool.not_eq_true', beq_iff_eq] at hfacts
  obtain ⟨⟨hne, hprinted⟩, hright⟩ := hfacts
  obtain ⟨s, hrun, hanswer⟩ := exists_run_of_code hcode
  obtain ⟨source', part', held, m', files, hsource', hparts', hlearns', -, -, hlines⟩ :=
    Run.exists_of_run_train hrun
  obtain rfl : source = source' := Except.ok.inj (hsource.symm.trans hsource')
  obtain ⟨rfl, rfl⟩ := Prod.mk.inj (Except.ok.inj (hparts.symm.trans hparts'))
  obtain rfl : m = m' := hlearns.unique hlearns'
  obtain ⟨before, hlines⟩ := hlines test rfl (by simpa using hne)
  exact ⟨source, part, test, m, before, hsource, hparts, hlearns,
    by rw [hanswer, ← hprinted]; exact hlines, hright⟩

end CommandLine
end Retrace
