import Retrace.Proofs.TrainedRecord
import Retrace.Proofs.Workshop

/-!
# Trainers described by configurations

The configuration that is extracted for a trainer describes the trainer again: every setting reads
back as the value that was recorded, and the kernel is the one that the configuration refers to.
Numbers of 64 bits are recorded as signed ones, so this holds below the half of their range; doubles
read back where their text does.

Main results:

- Theorem `ofConfiguration_kernel`: a kernel from a checked constructor is described again.
- Theorem `ofConfiguration_trainer`: so are the settings of a trainer and its count.
-/

namespace Retrace

/-- Whether the text of a double reads back as the double. -/
def Float.ReadsBack (x : Float) : Prop :=
  Decimal.readFloat (Decimal.recorded.render x).toList = .ok x

/-- Whether a kernel comes from a constructor that checks its parameters. -/
def Kernel.Checked (k : Kernel) : Prop :=
  k = .linear ∨ (∃ gamma, mkRbf gamma = .ok k) ∨
    ∃ degree gamma coef0, mkPolynomial degree gamma coef0 = .ok k

/-- The doubles among the parameters of a kernel. -/
def Kernel.doubles : Kernel → List Float
  | .linear => []
  | .rbf gamma => [gamma]
  | .polynomial _ gamma coef0 => [gamma, coef0]

/-- The doubles among the settings of a trainer. -/
def Trainer.doubles (t : Trainer) : List Float :=
  t.settings.penalty :: t.settings.tolerance :: t.kernel.doubles

/-! ## Reading properties -/

namespace Configuration

/-- A value that can be read is accepted. -/
theorem checked_of_value {β : Type} {c : Configuration} {key s : String}
    {reader : List Char → Except Decimal.NumberFault β} {value : β}
    (hproperty : c.property? key = some (.value s)) (hread : reader s.toList = .ok value) :
    c.checked key (read? reader) = .ok (some value) := by
  simp [checked, read?, text?, hproperty, hread, Except.mapError]

/-- A value that can be read is found where it is needed. -/
theorem needed_of_value {β : Type} {c : Configuration} {key s : String}
    {reader : List Char → Except Decimal.NumberFault β} {value : β}
    (hproperty : c.property? key = some (.value s)) (hread : reader s.toList = .ok value) :
    c.needed key (read? reader) = .ok value := by
  rw [needed, checked_of_value hproperty hread]

end Configuration

namespace Extraction.Configures

variable {order : DependencyOrder} {c : Configuration} {o : Occurrence}

/-- A double that reads back is read from its configuration. -/
theorem property?_double (h : Configures order c o) {key : String} {x : Float}
    (hkey : Keyed.lookupLast key o.record.configured = some (.double x)) :
    c.property? key = some (.value (Decimal.recorded.render x)) :=
  h.property?_primitive hkey

/-- A recorded number is the text of its property. -/
theorem property?_long (h : Configures order c o) {key : String} {n : Int64}
    (hkey : Keyed.lookupLast key o.record.configured = some (.long n)) :
    c.property? key = some (.value (String.ofList (Decimal.intDigits n.toInt))) :=
  h.property?_primitive hkey

end Extraction.Configures

/-! ## Kernels -/

/-- A degree keeps its value among signed numbers. -/
theorem toInt_ofNat_degree (degree : UInt32) :
    (Int64.ofNat degree.toNat).toInt = degree.toNat := by
  have hlt : degree.toNat < 2 ^ 32 := degree.toNat_lt
  rw [Int64.toInt_ofNat_of_lt (by omega)]

/-- The configuration of a kernel from a checked constructor describes the kernel. -/
theorem Kernel.ofConfiguration_kernel {k : Kernel} (hk : k.Checked)
    (hdoubles : ∀ x ∈ k.doubles, Float.ReadsBack x) {order : DependencyOrder} {c : Configuration}
    {o : Occurrence} (ho : o.record = k.record) (h : Extraction.Configures order c o) :
    Kernel.ofConfiguration c = .ok k := by
  have hclass : c.className = k.record.className := by rw [h.className, ho]
  rcases hk with rfl | ⟨gamma, hgamma⟩ | ⟨degree, gamma, coef0, hpolynomial⟩
  · simp [ofConfiguration, hclass, Kernel.record, Record.rebuildable]
  · have heq : k = .rbf gamma := by
      rw [mkRbf] at hgamma
      split at hgamma
      · exact (Except.ok.inj hgamma).symm
      · simp at hgamma
    subst heq
    have hread : c.needed "gamma" Configuration.float? = .ok gamma :=
      Configuration.needed_of_value (h.property?_double (by rw [ho]; rfl))
        (hdoubles gamma (by simp [doubles]))
    simp [ofConfiguration, hclass, Kernel.record, Record.rebuildable, hread, bind, Except.bind,
      hgamma, Except.mapError]
  · have heq : k = .polynomial degree gamma coef0 := by
      rw [mkPolynomial] at hpolynomial
      split at hpolynomial
      · simp at hpolynomial
      · split at hpolynomial
        · exact (Except.ok.inj hpolynomial).symm
        · simp at hpolynomial
    subst heq
    have hdegree : c.needed "degree" Configuration.smallWord? = .ok degree := by
      refine Configuration.needed_of_value (h.property?_long (by rw [ho]; rfl)) ?_
      rw [String.toList_ofList, toInt_ofNat_degree]
      exact Decimal.readUInt32_natDigits degree
    have hgamma : c.needed "gamma" Configuration.float? = .ok gamma :=
      Configuration.needed_of_value (h.property?_double (by rw [ho]; rfl))
        (hdoubles gamma (by simp [doubles]))
    have hcoef0 : c.needed "coef0" Configuration.float? = .ok coef0 :=
      Configuration.needed_of_value (h.property?_double (by rw [ho]; rfl))
        (hdoubles coef0 (by simp [doubles]))
    simp [ofConfiguration, hclass, Kernel.record, Record.rebuildable, hdegree, hgamma, hcoef0, bind,
      Except.bind, hpolynomial, Except.mapError]

/-! ## Settings -/

/-- Whether the numbers of a trainer are below the half of their range, as records keep them. -/
structure Trainer.Recordable (t : Trainer) : Prop where
  maxSweeps : t.settings.maxSweeps.toNat < 2 ^ 63
  maxPasses : t.settings.maxPasses.toNat < 2 ^ 63
  cacheSize : t.settings.cacheSize.toNat < 2 ^ 63
  count : t.count.toNat < 2 ^ 63

/-- The text that restores the recorded count of a trainer. -/
def Trainer.countText (t : Trainer) : String :=
  (Primitive.long t.count.toInt64).render

section Restored

variable {order : DependencyOrder} {c : Configuration} {o : Occurrence} {key : String}

/-- Restoring the count leaves the other properties. -/
theorem Configuration.property?_restored (c : Configuration) (s : String)
    (hkey : key ≠ "initial-rng-draws") :
    (c.set "initial-rng-draws" (.value s)).property? key = c.property? key := by
  rw [property_set, if_neg hkey]

/-- A double that reads back is read whatever count is restored. -/
theorem Extraction.Configures.checked_float (h : Configures order c o) (s : String)
    (hkey : key ≠ "initial-rng-draws") {x : Float} (hx : Float.ReadsBack x)
    (hfield : Keyed.lookupLast key o.record.configured = some (.double x)) :
    (c.set "initial-rng-draws" (.value s)).checked key Configuration.float? = .ok (some x) :=
  Configuration.checked_of_value
    ((c.property?_restored s hkey).trans (h.property?_double hfield)) hx

/-- A number below the half of its range is read whatever count is restored. -/
theorem Extraction.Configures.checked_word (h : Configures order c o) (s : String)
    (hkey : key ≠ "initial-rng-draws") {n : UInt64} (hn : n.toNat < 2 ^ 63)
    (hfield : Keyed.lookupLast key o.record.configured = some (.long n.toInt64)) :
    (c.set "initial-rng-draws" (.value s)).checked key Configuration.word? = .ok (some n) := by
  refine Configuration.checked_of_value
    ((c.property?_restored s hkey).trans (h.property?_long hfield)) ?_
  rw [String.toList_ofList]
  exact Decimal.readUInt64_intDigits hn

/-- The configuration of a trainer with its count restored describes the trainer, its kernel
aside. -/
theorem Trainer.ofConfiguration_trainer {t : Trainer} (ht : t.Recordable)
    (hdoubles : ∀ x ∈ t.doubles, Float.ReadsBack x) (ho : o.record = t.record)
    (h : Extraction.Configures order c o) :
    Trainer.ofConfiguration (c.set "initial-rng-draws" (.value t.countText)) =
      .ok { t with kernel := .linear } := by
  have hpenalty := @Extraction.Configures.checked_float _ _ _ "c" h t.countText (by decide)
    t.settings.penalty (hdoubles _ (by simp [doubles])) (by rw [ho]; rfl)
  have htolerance := @Extraction.Configures.checked_float _ _ _ "epsilon" h t.countText (by decide)
    t.settings.tolerance (hdoubles _ (by simp [doubles])) (by rw [ho]; rfl)
  have hsweeps := @Extraction.Configures.checked_word _ _ _ "max-iterations" h t.countText
    (by decide) _ ht.maxSweeps (by rw [ho]; rfl)
  have hpasses := @Extraction.Configures.checked_word _ _ _ "max-passes" h t.countText
    (by decide) _ ht.maxPasses (by rw [ho]; rfl)
  have hcache := @Extraction.Configures.checked_word _ _ _ "cache-size" h t.countText
    (by decide) _ ht.cacheSize (by rw [ho]; rfl)
  generalize hc : c.set "initial-rng-draws" (.value t.countText) = c' at *
  have hseed : c'.checked "seed" Configuration.long? = .ok (some t.seed.toInt64) := by
    rw [← hc]
    refine Configuration.checked_of_value ((c.property?_restored t.countText (by decide)).trans
      (h.property?_long (by rw [ho]; rfl))) ?_
    rw [String.toList_ofList]
    exact Decimal.readInt64_intDigits _
  have hcount : c'.checked "initial-rng-draws" Configuration.word? = .ok (some t.count) := by
    have hset : c'.property? "initial-rng-draws" = some (.value t.countText) := by
      rw [← hc, Configuration.property_set, if_pos rfl]
    refine Configuration.checked_of_value hset ?_
    rw [countText, Primitive.render, String.toList_ofList]
    exact Decimal.readUInt64_intDigits ht.count
  simp [ofConfiguration, hpenalty, htolerance, hsweeps, hpasses, hcache, hseed, hcount, bind,
    Except.bind, pure, Except.pure, Trainer.standard]

end Restored

end Retrace
