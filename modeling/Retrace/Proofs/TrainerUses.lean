import Retrace.Proofs.RepeatedReproduction

/-!
# Uses of one trainer

A trainer is used time and again, and between the uses it is asked how often it was used and how it
was made.  What it answers depends on the number of trainings before and not on their data or their
outcome: a training that fails on its data is counted like one that gives a model, a question is
not counted, and a trainer with settings out of range counts nothing.

Main results:

- Theorem `useAll_of_valid`: after any uses a trainer is the trainer it was, but for the count.
- Theorem `train_among_uses`: each training is that of a fresh trainer which starts at its count.
-/

namespace Retrace

/-- Outcomes that agree on everything but the time are both models or both errors. -/
theorem SameButTime.isOk_eq {occasion : Occasion} {time : Instant} {a b : Result Model}
    (h : SameButTime occasion time a b) : a.isOk = b.isOk := by
  cases h <;> rfl

namespace Trainer

open Reproduction (onLinux)

variable {t : Trainer}

/-! ## Counts -/

/-- The trainer after so many more trainings. -/
def later (t : Trainer) (k : Nat) : Trainer :=
  { t with count := t.count + UInt64.ofNat k }

@[simp] theorem later_zero (t : Trainer) : t.later 0 = t := by
  simp [later]

theorem later_later (t : Trainer) (j k : Nat) : (t.later j).later k = t.later (j + k) := by
  simp [later, UInt64.add_assoc]

@[simp] theorem settings_later (t : Trainer) (k : Nat) : (t.later k).settings = t.settings := rfl

/-- The count goes on from 0 when it has reached its limit. -/
theorem toNat_count_later (t : Trainer) (k : Nat) :
    (t.later k).count.toNat = (t.count.toNat + k) % 2 ^ 64 := by
  simp [later, UInt64.toNat_add]

/-- A training with settings in range raises the count by one, whatever comes of it. -/
theorem snd_train_of_valid (h : t.settings.fault? = none) (occasion : Occasion) (d : Dataset) :
    (t.train occasion d).2 = t.later 1 := by
  rw [count_train h]
  rfl

/-- The model that a trainer learns records the count that the training found. -/
theorem long_trainer_of_train {occasion : Occasion} {d : Dataset} {m : Model}
    (h : (t.train occasion d).1 = .ok m) :
    ∃ o, m.record.trainer = .ok o ∧
      o.record.long? "train-invocation-count" = some t.count.toInt64 := by
  obtain ⟨-, hrecord, -⟩ := train_occasion (Prod.ext h rfl)
  refine ⟨ModelRecord.trainerIn d t, ?_, rfl⟩
  rw [hrecord, ModelRecord.trainer_ofTraining]

/-! ## Uses and questions -/

/-- A training, or a question to a trainer. -/
inductive Use where
  | train (occasion : Occasion) (d : Dataset)
  | count
  | record

/-- What a trainer answers. -/
inductive Answer where
  | trained (outcome : Result Model)
  | count (count : UInt64)
  | record (record : Record)

/-- The number of trainings in a use. -/
def Use.trainings : Use → Nat
  | .train _ _ => 1
  | .count => 0
  | .record => 0

/-- The number of trainings in uses. -/
def trainings (uses : List Use) : Nat :=
  (uses.map Use.trainings).sum

/-- Use a trainer once: the answer, and the trainer after the use. -/
def use (t : Trainer) : Use → Answer × Trainer
  | .train occasion d =>
      let (outcome, after) := t.train occasion d
      (.trained outcome, after)
  | .count => (.count t.count, t)
  | .record => (.record t.record, t)

/-- Use a trainer time and again: the answers in order, and the trainer after the last use. -/
def useAll (t : Trainer) : List Use → List Answer × Trainer
  | [] => ([], t)
  | u :: rest =>
      let (answer, next) := t.use u
      let (answers, last) := next.useAll rest
      (answer :: answers, last)

/-- Uses in two parts are those of the first part and then those of the second. -/
theorem useAll_append (t : Trainer) (earlier rest : List Use) :
    t.useAll (earlier ++ rest) =
      ((t.useAll earlier).1 ++ ((t.useAll earlier).2.useAll rest).1,
        ((t.useAll earlier).2.useAll rest).2) := by
  induction earlier generalizing t with
  | nil => rfl
  | cons u earlier ih => simp only [List.cons_append, useAll, ih]

theorem length_useAll (t : Trainer) (uses : List Use) :
    (t.useAll uses).1.length = uses.length := by
  induction uses generalizing t with
  | nil => rfl
  | cons u rest ih => simp only [useAll, List.length_cons, ih]

/-- The answer to a use is what the trainer answers in the state where the uses before left it. -/
theorem getElem?_useAll (t : Trainer) (earlier : List Use) (u : Use) (rest : List Use) :
    (t.useAll (earlier ++ u :: rest)).1[earlier.length]? =
      some ((t.useAll earlier).2.use u).1 := by
  rw [useAll_append, List.getElem?_append_right (length_useAll t earlier).le, length_useAll,
    Nat.sub_self]
  rfl

/-! ## The trainer after its uses -/

/-- A trainer with settings in range counts the trainings of a use. -/
theorem use_of_valid (h : t.settings.fault? = none) (u : Use) :
    (t.use u).2 = t.later u.trainings := by
  cases u with
  | train occasion d => exact snd_train_of_valid h occasion d
  | count => exact (later_zero t).symm
  | record => exact (later_zero t).symm

/-- After any uses a trainer with settings in range is what it was, but for the count. -/
theorem useAll_of_valid (h : t.settings.fault? = none) (uses : List Use) :
    (t.useAll uses).2 = t.later (trainings uses) := by
  induction uses generalizing t with
  | nil => exact (later_zero t).symm
  | cons u rest ih =>
      have hnext : (t.use u).2.settings.fault? = none := by
        rw [use_of_valid h, settings_later, h]
      simp only [useAll]
      rw [ih hnext, use_of_valid h, later_later]
      rfl

/-- A trainer with settings out of range counts nothing. -/
theorem use_of_invalid {fault : ParameterFault} (h : t.settings.fault? = some fault) (u : Use) :
    (t.use u).2 = t := by
  cases u with
  | train occasion d => simp only [use, train_of_invalid h]
  | count => rfl
  | record => rfl

/-- No use changes a trainer with settings out of range. -/
theorem useAll_of_invalid {fault : ParameterFault} (h : t.settings.fault? = some fault)
    (uses : List Use) : (t.useAll uses).2 = t := by
  induction uses with
  | nil => rfl
  | cons u rest ih =>
      simp only [useAll]
      rw [use_of_invalid h, ih]

/-! ## Trainings among uses -/

/-- With settings in range a training has the outcome of a fresh trainer which starts at the count
that the trainings before led to, but for the time; a model records that count, and the count is
one higher afterwards.  With settings out of range it fails and changes nothing. -/
theorem train_among_uses (t : Trainer) (earlier rest : List Use) (occasion : Occasion)
    (time : Instant) (d : Dataset) :
    ∃ outcome, (t.useAll (earlier ++ .train occasion d :: rest)).1[earlier.length]? =
        some (.trained outcome) ∧
      (t.settings.fault? = none →
        SameButTime occasion time outcome
          ((t.later (trainings earlier)).train { occasion with time := time } d).1 ∧
        (∀ m, outcome = .ok m → ∃ o, m.record.trainer = .ok o ∧
          o.record.long? "train-invocation-count" =
            some (t.later (trainings earlier)).count.toInt64) ∧
        (t.useAll earlier).2 = t.later (trainings earlier) ∧
        (t.useAll (earlier ++ [.train occasion d])).2 = t.later (trainings earlier + 1) ∧
        (t.useAll (earlier ++ [.train occasion d])).2.count.toNat =
          (t.count.toNat + trainings earlier + 1) % 2 ^ 64) ∧
      ∀ fault, t.settings.fault? = some fault → outcome = .error (.parameter fault) ∧
        (t.useAll (earlier ++ [.train occasion d])).2 = t := by
  refine ⟨((t.useAll earlier).2.train occasion d).1, getElem?_useAll .., fun h => ?_,
    fun fault h => ?_⟩
  · have hbefore := useAll_of_valid h earlier
    have hafter : (t.useAll (earlier ++ [.train occasion d])).2 =
        t.later (trainings earlier + 1) := by
      rw [useAll_of_valid h, trainings, List.map_append, List.sum_append]
      rfl
    rw [hbefore]
    refine ⟨sameButTime_train .., fun m hm => long_trainer_of_train hm, rfl, hafter, ?_⟩
    rw [hafter, toNat_count_later]
    rfl
  · rw [useAll_of_invalid h, useAll_of_invalid h, train_of_invalid h]
    exact ⟨rfl, rfl⟩

/-- Points on a line, each at its label. -/
def line (labels : List Float) : Dataset :=
  let samples := labels.map fun label => ⟨⟨[0], [label]⟩, label⟩
  .observe "MutableDataset" ["x"] samples (DataSource.inMemory ["x"] samples "line").record []

/-- A trainer that was used as often as can be counted. -/
def worn : Trainer :=
  { Reproduction.lenient with count := 0xFFFFFFFFFFFFFFFF }

/-- A training that fails on points of one label brings the count back to 0, and the next model
records this; with a penalty of 0 neither training is counted. -/
theorem train_among_uses_line :
    (∃ m o, (worn.useAll [.train (onLinux 0) (line [1, 1]), .count,
        .train (onLinux 1) (line [1, -1])]).1[2]? = some (.trained (.ok m)) ∧
      m.record.trainer = .ok o ∧ o.record.long? "train-invocation-count" = some 0 ∧
      (worn.useAll [.train (onLinux 0) (line [1, 1]), .count,
        .train (onLinux 1) (line [1, -1])]).2.count.toNat = 1) ∧
    ({ worn with settings.penalty := 0 }.useAll [.train (onLinux 0) (line [1, 1]), .record,
      .train (onLinux 1) (line [1, -1])]).2 = { worn with settings.penalty := 0 } := by
  constructor
  · obtain ⟨outcome, hanswer, hvalid, -⟩ := train_among_uses worn
      [.train (onLinux 0) (line [1, 1]), .count] [] (onLinux 1) ⟨1, 0⟩ (line [1, -1])
    obtain ⟨hsame, hrecorded, -, -, hcount⟩ := hvalid (by decide +kernel)
    have hok : outcome.isOk = true := by
      rw [hsame.isOk_eq]
      decide +kernel
    cases outcome with
    | error e => exact absurd hok (by simp [Except.isOk, Except.toBool])
    | ok m =>
        obtain ⟨o, ho, hlong⟩ := hrecorded m rfl
        exact ⟨m, o, hanswer, ho, hlong, hcount⟩
  · obtain ⟨_, -, -, hinvalid⟩ := train_among_uses { worn with settings.penalty := 0 }
      [.train (onLinux 0) (line [1, 1]), .record] [] (onLinux 1) ⟨1, 0⟩ (line [1, -1])
    exact (hinvalid (.penalty 0) (by decide +kernel)).2

end Trainer
end Retrace
