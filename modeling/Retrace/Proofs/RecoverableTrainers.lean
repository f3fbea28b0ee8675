import Retrace.Proofs.FaithfulWorkshop
import Retrace.Proofs.TrainerRecovery

/-!
# Trainers that can be recovered

Records keep the numbers of 64 bits of a trainer as signed ones.  The seed is read as a signed
number again, but the limits of the search and the size of the cache are read as unsigned ones, and
a recorded count must not be negative.  So a trainer is recovered as it was exactly if these are
below the half of their range; any other one is recorded all the same, and then refused.

Main results:

- Theorem `exists_fault_readUInt64`: a recorded number from the half of the range on is not read.
- Theorem `recoverTrainer_iff_recordable`: which trainers are recovered, and that they are the same.
-/

namespace Retrace

/-! ## Numbers from the half of the range on -/

namespace Decimal

/-- An unsigned number from the half of its range on is recorded as a negative one. -/
theorem toInt_toInt64_neg {n : UInt64} (h : 2 ^ 63 ≤ n.toNat) : n.toInt64.toInt < 0 := by
  have hbits : n.toInt64.toInt = n.toBitVec.toInt := rfl
  rw [hbits, BitVec.toInt_neg_iff]
  change 2 ^ 64 ≤ 2 * n.toNat
  omega

/-- A negative number is not read as an unsigned one. -/
theorem exists_fault_readUInt64 {z : Int} (h : z < 0) :
    ∃ fault, readUInt64 (intDigits z) = .error fault := by
  cases z with
  | ofNat m => exact absurd h (by simp)
  | negSucc m =>
      rcases natDigits_eq_cons (m + 1) with ⟨c, rest, hcons, -, -⟩
      refine ⟨.notDigit, ?_⟩
      rw [intDigits, hcons, readUInt64, readNat]
      · simp [readBelow, Except.map]
      all_goals simp

end Decimal

/-- A property that its reader refuses. -/
theorem Configuration.exists_checked_error {β : Type} {c : Configuration} {key s : String}
    {reader : List Char → Except Decimal.NumberFault β} {fault : Decimal.NumberFault}
    (hproperty : c.property? key = some (.value s)) (hread : reader s.toList = .error fault) :
    c.checked key (read? reader) =
      .error (.component c.name (.property key (.unreadable s fault))) := by
  simp [checked, read?, text?, hproperty, hread, Except.mapError, Error.ofProperty]

section Restored

variable {order : DependencyOrder} {c : Configuration} {o : Occurrence} {key : String}

/-- A number from the half of its range on is not read whatever count is restored. -/
theorem Extraction.Configures.exists_word_error (h : Configures order c o) (s : String)
    (hkey : key ≠ "initial-rng-draws") {n : UInt64} (hn : 2 ^ 63 ≤ n.toNat)
    (hfield : Keyed.lookupLast key o.record.configured = some (.long n.toInt64)) :
    ∃ fault, (c.set "initial-rng-draws" (.value s)).checked key Configuration.word? =
      .error (.component c.name (.property key fault)) := by
  obtain ⟨fault, hread⟩ := Decimal.exists_fault_readUInt64 (Decimal.toInt_toInt64_neg hn)
  exact ⟨_, Configuration.exists_checked_error
    ((c.property?_restored s hkey).trans (h.property?_long hfield))
    (by rw [String.toList_ofList]; exact hread)⟩

/-- Whether the settings of a trainer are below the half of their range. -/
def Settings.Recordable (s : Settings) : Prop :=
  s.maxSweeps.toNat < 2 ^ 63 ∧ s.maxPasses.toNat < 2 ^ 63 ∧ s.cacheSize.toNat < 2 ^ 63

/-- A trainer is recordable if its settings and its count are. -/
theorem Trainer.recordable_iff {t : Trainer} :
    t.Recordable ↔ t.settings.Recordable ∧ t.count.toNat < 2 ^ 63 :=
  ⟨fun h => ⟨⟨h.maxSweeps, h.maxPasses, h.cacheSize⟩, h.count⟩,
    fun h => ⟨h.1.1, h.1.2.1, h.1.2.2, h.2⟩⟩

/-- The configuration of a trainer describes none if a setting is too large. -/
theorem Trainer.exists_ofConfiguration_error {t : Trainer} (ht : ¬t.settings.Recordable)
    (hdoubles : ∀ x ∈ t.doubles, Float.ReadsBack x) (ho : o.record = t.record)
    (h : Extraction.Configures order c o) (s : String) :
    ∃ key fault, Trainer.ofConfiguration (c.set "initial-rng-draws" (.value s)) =
      .error (.component c.name (.property key fault)) := by
  have hpenalty := @Extraction.Configures.checked_float _ _ _ "c" h s (by decide)
    t.settings.penalty (hdoubles _ (by simp [doubles])) (by rw [ho]; rfl)
  have htolerance := @Extraction.Configures.checked_float _ _ _ "epsilon" h s (by decide)
    t.settings.tolerance (hdoubles _ (by simp [doubles])) (by rw [ho]; rfl)
  have hword := fun key hkey n => @Extraction.Configures.checked_word _ _ _ key h s hkey n
  have herror := fun key hkey n => @Extraction.Configures.exists_word_error _ _ _ key h s hkey n
  by_cases hsweeps : t.settings.maxSweeps.toNat < 2 ^ 63
  · by_cases hpasses : t.settings.maxPasses.toNat < 2 ^ 63
    · have hcache : 2 ^ 63 ≤ t.settings.cacheSize.toNat :=
        Nat.not_lt.1 fun hcache => ht ⟨hsweeps, hpasses, hcache⟩
      have hsweeps := hword "max-iterations" (by decide) _ hsweeps (by rw [ho]; rfl)
      have hpasses := hword "max-passes" (by decide) _ hpasses (by rw [ho]; rfl)
      obtain ⟨fault, hcache⟩ := herror "cache-size" (by decide) _ hcache (by rw [ho]; rfl)
      exact ⟨"cache-size", fault, by
        simp [ofConfiguration, hpenalty, htolerance, hsweeps, hpasses, hcache, bind, Except.bind]⟩
    · have hsweeps := hword "max-iterations" (by decide) _ hsweeps (by rw [ho]; rfl)
      obtain ⟨fault, hpasses⟩ := herror "max-passes" (by decide) _ (Nat.not_lt.1 hpasses)
        (by rw [ho]; rfl)
      exact ⟨"max-passes", fault, by
        simp [ofConfiguration, hpenalty, htolerance, hsweeps, hpasses, bind, Except.bind]⟩
  · obtain ⟨fault, hsweeps⟩ := herror "max-iterations" (by decide) _ (Nat.not_lt.1 hsweeps)
      (by rw [ho]; rfl)
    exact ⟨"max-iterations", fault, by
      simp [ofConfiguration, hpenalty, htolerance, hsweeps, bind, Except.bind]⟩

end Restored

/-! ## Refusals -/

namespace Workshop

/-- A recipe that fails on behalf of a component makes nothing. -/
theorem run_make_error {look : String → Work Component} {directory : Directory} {c : Configuration}
    {w : Workshop} {entry : CatalogEntry} (hentry : w.catalog.entry? c.className = some entry)
    {name : String} {fault : ComponentFault}
    (hrecipe : entry.recipe directory c = .fail (.component name fault)) :
    (make look directory c).run w = (.error (.component name fault), w) := by
  have hfollow : (follow look (entry.recipe directory c)).run w =
      (.error (.component name fault), w) := by
    rw [hrecipe]
    rfl
  exact run_make_of_follow_error hentry hfollow

end Workshop

namespace Reproduction

open ModelRecord (ofTraining trainerIn kernelIn mem_occurrences_ofTraining)

/-- A negative count is not restored. -/
theorem run_restoreCounts_negative {before after : List (Nat × Occurrence)} {p : Nat}
    {o : Occurrence} {count : Int64}
    (hothers : ∀ row ∈ before, row.2.record.kind ≠ .trainer)
    (hkind : o.record.kind = .trainer) (hconf : o.record.configurable = true)
    (hcount : o.record.long? "train-invocation-count" = some count) (hsign : count < 0)
    (r : Reproduction) :
    (restoreCounts (before ++ (p, o) :: after)).run r =
      (.error (.trainer (.negativeCount (componentName o.record.className p) count)), r) := by
  induction before with
  | nil =>
      rw [List.nil_append, restoreCounts, if_pos ⟨hkind, hconf⟩]
      simp only [hcount, hsign, if_true]
      rfl
  | cons row rest ih =>
      rcases row with ⟨position, i⟩
      rw [List.forall_mem_cons] at hothers
      have hskip : ¬(i.record.kind = .trainer ∧ i.record.configurable = true) := fun hboth =>
        hothers.1 hboth.1
      rw [List.cons_append, restoreCounts, if_neg hskip]
      exact ih hothers.2

variable {directory : Directory} {plan : DatasetPlan} {d : Dataset} {t : Trainer}
  {occasion : Occasion} {configs : List Configuration}

/-- A count from the half of its range on is refused. -/
theorem run_recoverTrainer_of_count (hload : plan.load directory = .ok d)
    (hcount : 2 ^ 63 ≤ t.count.toNat) (reference : Option Model) :
    ∃ name s, (recoverTrainer directory).run
        (prepared .standard (ofTraining d t occasion) reference configs) =
      (.error (.trainer (.negativeCount name t.count.toInt64)), s) := by
  obtain ⟨p, hget⟩ := DependencyOrder.exists_get?
    (mem_occurrences_ofTraining.2 (.inr (.inl rfl)) :
      trainerIn d t ∈ (ofTraining d t occasion).record.occurrences)
  rcases exists_rows_trained hload hget with ⟨before, after, hrows, hothers⟩
  have hsign : t.count.toInt64 < 0 := by
    rw [Int64.lt_iff_toInt_lt]
    exact Decimal.toInt_toInt64_neg hcount
  have hrestore := @run_restoreCounts_negative before after p (trainerIn d t) t.count.toInt64
    (fun row hrow => (hothers row (List.mem_append_left _ hrow)).1) rfl rfl rfl hsign
    (prepared .standard (ofTraining d t occasion) reference configs)
  rw [← hrows] at hrestore
  have hrun := @run_recoverTrainer_eq d t occasion configs directory reference
  rw [run_bind_error hrestore] at hrun
  exact ⟨_, _, hrun⟩

/-- Settings from the half of their range on are refused. -/
theorem run_recoverTrainer_of_settings (hload : plan.load directory = .ok d)
    (hsettings : ¬t.settings.Recordable) (hcount : t.count.toNat < 2 ^ 63)
    (hdoubles : ∀ x ∈ t.doubles, Float.ReadsBack x)
    (h : (ofTraining d t occasion).record.extract = .ok configs) (reference : Option Model) :
    ∃ name key fault s, (recoverTrainer directory).run
        (prepared .standard (ofTraining d t occasion) reference configs) =
      (.error (.component name (.property key fault)), s) := by
  obtain ⟨p, hget⟩ := DependencyOrder.exists_get?
    (mem_occurrences_ofTraining.2 (.inr (.inl rfl)) :
      trainerIn d t ∈ (ofTraining d t occasion).record.occurrences)
  rcases exists_names_trained h hget with ⟨kernelName, c, k, hc, hk, hreference⟩
  have hrestore := run_restoreCounts_trained hload hcount h hget reference
  have hconfig := configuration?_restored h hc
    (.holding .standard (restored t configs (componentName Trainer.className p))) rfl
  rw [if_pos rfl] at hconfig
  obtain ⟨key, fault, hmade⟩ := Trainer.exists_ofConfiguration_error hsettings hdoubles rfl
    hc.configures t.countText
  have hrecipe : Recipe.trainer directory (c.set "initial-rng-draws" (.value t.countText)) =
      .fail (.component c.name (.property key fault)) := by
    rw [Recipe.trainer, hmade]
  have hentry : Catalog.standard.entry?
      (c.set "initial-rng-draws" (.value t.countText)).className =
        some ⟨.trainer, Recipe.trainer⟩ := by
    rw [Configuration.className_set, hc.configures.className]
    rfl
  obtain ⟨w, hlookup⟩ := @Workshop.run_lookup_error directory _ _ _ rfl rfl hconfig _ _
    (Workshop.run_make_error hentry hrecipe)
  have hall : (Workshop.allOfClass directory Trainer.className).run
      (.holding .standard (restored t configs (componentName Trainer.className p))) =
        (.error (.component c.name (.property key fault)), w) := by
    rw [Workshop.allOfClass, run_get_bind, namesWhere_trainer hload h hget, Workshop.lookupAll]
    exact run_bind_error hlookup
  have hrun := @run_recoverTrainer_eq d t occasion configs directory reference
  rw [run_bind_ok hrestore] at hrun
  exact ⟨_, key, fault, _, hrun.trans (run_bind_error (run_inWorkshop_error hall))⟩

/-- A trainer with valid settings is recovered from its record exactly if its limits, the size of
its cache and its count are below the half of their range, and then with the settings, the kernel,
the seed and the count that it had.  Otherwise the count is refused as a negative one, or a property
of its configuration as one that cannot be read. -/
theorem recoverTrainer_iff_recordable (hload : plan.load directory = .ok d)
    (hvalid : t.settings.fault? = none) (hkernel : t.kernel.Checked)
    (hdoubles : ∀ x ∈ t.doubles, Float.ReadsBack x) (occasion : Occasion) :
    ∃ r, ofRecord (ofTraining d t occasion) .standard = .ok r ∧
      (t.Recordable → ∃ handle s, (recoverTrainer directory).run r = (.ok handle, s) ∧
        s.workshop.trainer? handle = some t) ∧
      (¬t.Recordable → ∃ e s, (recoverTrainer directory).run r = (.error e, s) ∧
        if 2 ^ 63 ≤ t.count.toNat then
          ∃ name, e = .trainer (.negativeCount name t.count.toInt64)
        else ∃ name key fault, e = .component name (.property key fault)) := by
  obtain ⟨configs, hextract⟩ := ModelRecord.extract_ofTraining hload t occasion
  refine ⟨_, ofRecord_of_extract hextract .standard, fun ht => ?_, fun ht => ?_⟩
  · obtain ⟨w, hrun, htrainers, -⟩ :=
      run_recoverTrainer hload hkernel ht hdoubles hvalid hextract none
    refine ⟨0, _, hrun, ?_⟩
    rw [Workshop.trainer?, htrainers]
    rfl
  · by_cases hcount : 2 ^ 63 ≤ t.count.toNat
    · obtain ⟨name, s, hrun⟩ := run_recoverTrainer_of_count hload hcount none
      exact ⟨_, s, hrun, by rw [if_pos hcount]; exact ⟨name, rfl⟩⟩
    · have hsettings : ¬t.settings.Recordable := fun hs =>
        ht (Trainer.recordable_iff.2 ⟨hs, Nat.not_le.1 hcount⟩)
      obtain ⟨name, key, fault, s, hrun⟩ := run_recoverTrainer_of_settings hload hsettings
        (Nat.not_le.1 hcount) hdoubles hextract none
      exact ⟨_, s, hrun, by rw [if_neg hcount]; exact ⟨name, key, fault, rfl⟩⟩

/-- One point in memory. -/
def onePoint : DatasetPlan :=
  .whole (.memory ["x"] [⟨⟨[0], [1]⟩, 1⟩] "one point")

/-- A trainer that was used twice, with a seed from the half of the range on. -/
def seasoned : Trainer where
  settings := ⟨0.5, 0.25, 7, 2, 100⟩
  kernel := .rbf 0.5
  seed := 0x8000000000000000
  count := 2

/-- The trainer is recovered, its seed included. -/
theorem recoverTrainer_iff_recordable_seasoned :
    ∃ d r handle s, onePoint.load .empty = .ok d ∧
      ofRecord (ofTraining d seasoned ⟨⟨0, 0⟩, "linux", "x86_64"⟩) .standard = .ok r ∧
      (recoverTrainer .empty).run r = (.ok handle, s) ∧
      s.workshop.trainer? handle = some seasoned := by
  have hloads : (onePoint.load .empty).isOk = true := by decide +kernel
  cases hload : onePoint.load .empty with
  | error e => simp [hload, Except.isOk, Except.toBool] at hloads
  | ok d =>
      have hvalid : seasoned.settings.fault? = none := by decide +kernel
      have hkernel : seasoned.kernel.Checked := .inr (.inl ⟨0.5, rfl⟩)
      have hdoubles : ∀ x ∈ seasoned.doubles, Float.ReadsBack x := by
        intro x hx
        have hvalues : x = 0.5 ∨ x = 0.25 ∨ x = 0.5 := by
          simpa [Trainer.doubles, seasoned, Kernel.doubles] using hx
        rcases hvalues with rfl | rfl | rfl <;> rfl
      obtain ⟨r, hr, hrecovered, -⟩ := recoverTrainer_iff_recordable hload hvalid hkernel hdoubles
        ⟨⟨0, 0⟩, "linux", "x86_64"⟩
      obtain ⟨handle, s, hrun, hsame⟩ := hrecovered (by constructor <;> decide)
      exact ⟨d, r, handle, s, rfl, hr, hrun, hsame⟩

/-- A trainer with more sweeps than a signed number can count. -/
def tireless : Trainer :=
  { seasoned with settings := { seasoned.settings with maxSweeps := 0x8000000000000000 } }

/-- A trainer that was used more often than a signed number can count. -/
def worn : Trainer :=
  { seasoned with count := 0x8000000000000000 }

/-- Whether a trainer with valid settings that is recorded with one point is not recovered. -/
def Unrecovered (t : Trainer) : Prop :=
  t.settings.fault? = none ∧ t.kernel.Checked ∧ (∀ x ∈ t.doubles, Float.ReadsBack x) ∧
    ∃ d r, onePoint.load .empty = .ok d ∧
      ofRecord (ofTraining d t ⟨⟨0, 0⟩, "linux", "x86_64"⟩) .standard = .ok r ∧
      ¬∃ handle s, (recoverTrainer .empty).run r = (.ok handle, s)

theorem unrecovered_of_mem : ∀ t ∈ [tireless, worn], Unrecovered t := by
  have hfails : ∀ t ∈ [tireless, worn], t.settings.fault? = none ∧
      ((onePoint.load .empty).toOption.any fun d =>
        (ofRecord (ofTraining d t ⟨⟨0, 0⟩, "linux", "x86_64"⟩) .standard).toOption.any fun r =>
          !((recoverTrainer .empty).run r).1.isOk) = true := by decide +kernel
  simp only [Option.any_eq_true, toOption_eq_some_iff] at hfails
  intro t ht
  obtain ⟨hvalid, d, hload, r, hr, hfails⟩ := hfails t ht
  refine ⟨hvalid, ?_, ?_, ?_⟩
  · simp only [List.mem_cons, List.not_mem_nil, or_false] at ht
    rcases ht with rfl | rfl <;> exact .inr (.inl ⟨0.5, rfl⟩)
  · intro x hx
    have hvalues : x = 0.5 ∨ x = 0.25 ∨ x = 0.5 := by
      simp only [List.mem_cons, List.not_mem_nil, or_false] at ht
      rcases ht with rfl | rfl <;>
        simpa [Trainer.doubles, tireless, worn, seasoned, Kernel.doubles] using hx
    rcases hvalues with rfl | rfl | rfl <;> rfl
  · refine ⟨d, r, hload, hr, ?_⟩
    rintro ⟨handle, s, hrun⟩
    simp [hrun, Except.isOk, Except.toBool] at hfails

/-- Neither a limit nor a count from the half of the range on survives its record. -/
theorem not_recovered_tireless_worn : Unrecovered tireless ∧ Unrecovered worn :=
  ⟨unrecovered_of_mem tireless (by simp), unrecovered_of_mem worn (by simp)⟩

end Reproduction
end Retrace
