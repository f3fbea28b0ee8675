import Retrace.Proofs.AlikeNodes
import Retrace.Proofs.Routes

/-!
# Lookups in alike records

Being alike looks at the last value of every key, in the configured fields and in the recorded ones
apart.  A lookup finds the first field with a key, a configured one before a recorded one.  The two
rules pick alike values for a key that neither list of fields repeats; where they do, the key is
settled.  Alike records answer the lookup of a key alike if it is settled in both, and they do not
if it is settled in one of them only.  So alike records are accepted as those of models together,
and their lineages go the same way, if the keys that lead there are settled.

Main results:

- Theorem `settled_of_unrepeated`: a key that is not repeated is settled.
- Theorem `bothAlike_field?_iff`: a key that is settled in one of two alike records has alike values
  in both exactly if it is settled in the other one too.
- Theorem `Occurrence.agreeing_lineage`: the lineages of alike datasets agree.
- Theorem `Record.answers_of_alike`: what alike records answer.
-/

namespace Retrace

/-! ## Nodes that may be missing -/

/-- What is related to something that is there is there. -/
theorem exists_some_of_rel {β : Type} {R : β → β → Prop} {x y : Option β} {a : β}
    (h : Option.Rel R x y) (hx : x = some a) : ∃ b, y = some b ∧ R a b := by
  rcases none_or_some_of_rel h with ⟨hnone, -⟩ | ⟨a', b, ha, hb, hab⟩
  · simp [hx] at hnone
  · rw [hx, Option.some.injEq] at ha
    exact ⟨b, hb, ha ▸ hab⟩

namespace Node

/-- Whether two nodes are alike, or missing both. -/
abbrev BothAlike : Option Node → Option Node → Prop :=
  Option.Rel fun n m => n.alike m = true

namespace BothAlike

variable {x y z x' y' : Option Node}

theorem symm (h : BothAlike x y) : BothAlike y x := by
  rcases h with h | _
  · exact .some (alike_symm h)
  · exact .none

theorem trans (h : BothAlike x y) (h' : BothAlike y z) : BothAlike x z := by
  rcases none_or_some_of_rel h with ⟨rfl, rfl⟩ | ⟨n, m, rfl, rfl, hnm⟩
  · exact h'
  · rcases none_or_some_of_rel h' with ⟨hm, -⟩ | ⟨m', k, hm, rfl, hmk⟩
    · simp at hm
    · rw [← Option.some.inj hm] at hmk
      exact .some (alike_trans hnm hmk)

/-- There is one value if there is the other. -/
theorem isSome_eq (h : BothAlike x y) : x.isSome = y.isSome := by
  rcases h with _ | _ <;> rfl

/-- The first values that there are are alike. -/
theorem or (h : BothAlike x y) (h' : BothAlike x' y') : BothAlike (x.or x') (y.or y') := by
  rcases h with h | _
  · exact .some h
  · exact h'

/-- What is read from alike nodes is related if it is so wherever two nodes are alike. -/
theorem bind {β : Type} {R : β → β → Prop} {f : Node → Option β} (h : BothAlike x y)
    (hf : ∀ n m, n.alike m = true → Option.Rel R (f n) (f m)) :
    Option.Rel R (x.bind f) (y.bind f) := by
  rcases h with h | _
  · exact hf _ _ h
  · exact .none

end BothAlike

/-- Nodes that are alike are alike primitives or none. -/
theorem rel_primitive?_of_alike {n m : Node} (h : n.alike m = true) :
    Option.Rel (fun x y => x.alike y = true) n.primitive? m.primitive? := by
  rw [alike_iff] at h
  cases h with
  | primitives h => exact .some h
  | lists | maps | objects => exact .none

theorem rel_record?_of_alike {n m : Node} (h : n.alike m = true) :
    Option.Rel (fun r s => r.alike s = true) n.record? m.record? := by
  rw [alike_iff] at h
  cases h with
  | primitives | lists | maps => exact .none
  | objects h => exact .some (Record.alike_iff.2 h)

end Node

/-! ## Settled keys -/

namespace Keyed

variable {β : Type}

/-- Whether a key occurs at most once. -/
def Unrepeated (key : String) (entries : List (String × β)) : Prop :=
  entries.countP (fun e => e.1 == key) ≤ 1

instance (key : String) (entries : List (String × β)) : Decidable (Unrepeated key entries) :=
  inferInstanceAs (Decidable (_ ≤ 1))

/-- The first value of a key that occurs at most once is the last one. -/
theorem Unrepeated.lookup_eq_lookupLast {key : String} {entries : List (String × β)}
    (h : Unrepeated key entries) : lookup key entries = lookupLast key entries := by
  induction entries with
  | nil => rfl
  | cons e rest ih =>
      rw [lookup, lookupLast_cons]
      by_cases hkey : e.1 = key
      · have hrest : hasKey key rest = false := by
          rw [Unrepeated, List.countP_cons_of_pos (by simp [hkey])] at h
          exact List.any_eq_false.2 (List.countP_eq_zero.1 (by omega))
        rw [if_pos hkey, if_pos hkey, lookupLast_eq_none_iff.2 hrest, Option.none_or]
      · rw [Unrepeated, List.countP_cons_of_neg (by simp [hkey])] at h
        rw [if_neg hkey, if_neg hkey, Option.or_none, ih h]

end Keyed

namespace Record

variable {r s : Record} {key : String}

/-- The last value of a key among the configured fields or, if they lack it, among the recorded
ones. -/
def lasting? (r : Record) (key : String) : Option Node :=
  (Keyed.lookupLast key r.configured).or (Keyed.lookupLast key r.recorded)

/-- Whether the value that a key finds is alike to the one that lasts. -/
def Settled (key : String) (r : Record) : Prop :=
  Node.BothAlike (r.field? key) (r.lasting? key)

/-- A field is looked up among the configured fields first. -/
theorem field?_eq_or (r : Record) (key : String) :
    r.field? key = (Keyed.lookup key r.configured).or (Keyed.lookup key r.recorded) :=
  Keyed.lookup_append key r.configured r.recorded

/-- A key is found if it has a lasting value. -/
theorem isSome_field? (r : Record) (key : String) :
    (r.field? key).isSome = (r.lasting? key).isSome := by
  rw [field?_eq_or, lasting?, Option.isSome_or, Option.isSome_or, ← Keyed.hasKey_eq_isSome,
    ← Keyed.hasKey_eq_isSome, ← Keyed.hasKey_eq_isSome_lookupLast,
    ← Keyed.hasKey_eq_isSome_lookupLast]

/-- What lasts in alike records is alike. -/
theorem bothAlike_lasting? (h : r.alike s = true) (key : String) :
    Node.BothAlike (r.lasting? key) (s.lasting? key) :=
  Node.BothAlike.or ((alike_iff.1 h).configured key) ((alike_iff.1 h).recorded key)

/-- A key that is repeated neither among the configured fields nor among the recorded ones is
settled. -/
theorem settled_of_unrepeated (h : r.alike s = true)
    (hconfigured : Keyed.Unrepeated key r.configured)
    (hrecorded : Keyed.Unrepeated key r.recorded) : r.Settled key := by
  have hsame : r.field? key = r.lasting? key := by
    rw [field?_eq_or, hconfigured.lookup_eq_lookupLast, hrecorded.lookup_eq_lookupLast, lasting?]
  rw [Settled, hsame]
  exact (bothAlike_lasting? h key).trans (bothAlike_lasting? h key).symm

/-- A key that is settled in one of two alike records has alike values in both exactly if it is
settled in the other one too. -/
theorem bothAlike_field?_iff (h : r.alike s = true) (hr : r.Settled key) :
    Node.BothAlike (r.field? key) (s.field? key) ↔ s.Settled key := by
  constructor
  · intro hfields
    exact hfields.symm.trans (hr.trans (bothAlike_lasting? h key))
  · intro hs
    exact hr.trans ((bothAlike_lasting? h key).trans hs.symm)

/-! ## Answers -/

/-- Whether two records answer every lookup of a key alike. -/
structure AnswersAlike (key : String) (r s : Record) : Prop where
  field : Node.BothAlike (r.field? key) (s.field? key)
  primitive : Option.Rel (fun x y => x.alike y = true) (r.primitive? key) (s.primitive? key)
  long : r.long? key = s.long? key
  double : Option.Rel (fun x y => (x == y) = true) (r.double? key) (s.double? key)
  boolean : r.boolean? key = s.boolean? key
  text : r.text? key = s.text? key
  record : Option.Rel (fun r s => r.alike s = true) (r.record? key) (s.record? key)

/-- All lookups of a key go by the node that it finds. -/
theorem answersAlike_iff : AnswersAlike key r s ↔ Node.BothAlike (r.field? key) (s.field? key) := by
  refine ⟨fun h => h.field, fun h => ?_⟩
  have hprimitive : Option.Rel (fun x y => x.alike y = true)
      (r.primitive? key) (s.primitive? key) := h.bind fun n m => Node.rel_primitive?_of_alike
  have hrecord : Option.Rel (fun r s => r.alike s = true) (r.record? key) (s.record? key) :=
    h.bind fun n m => Node.rel_record?_of_alike
  refine ⟨h, hprimitive, ?_, ?_, ?_, ?_, hrecord⟩
  all_goals
    rcases none_or_some_of_rel hprimitive with ⟨hx, hy⟩ | ⟨x, y, hx, hy, halike⟩
    · simp [long?, double?, boolean?, text?, hx, hy]
    · cases x <;> cases y <;> simp_all [long?, double?, boolean?, text?, Primitive.alike]

end Record

/-! ## Results -/

/-- Whether two results are related values or the same error. -/
inductive Agreeing {ε α : Type} (R : α → α → Prop) : Except ε α → Except ε α → Prop
  | ok {x y : α} (h : R x y) : Agreeing R (.ok x) (.ok y)
  | error (e : ε) : Agreeing R (.error e) (.error e)

/-- Related values of agreeing results are taken to related values. -/
theorem Agreeing.map {ε α : Type} {R S : α → α → Prop} {x y : Except ε α} {f g : α → α}
    (h : Agreeing R x y) (hfg : ∀ a b, R a b → S (f a) (g b)) : Agreeing S (x.map f) (y.map g) := by
  cases h with
  | ok h => exact .ok (hfg _ _ h)
  | error e => exact .error e

/-- Whether two occurrences hold alike records. -/
def Occurrence.Alike (o p : Occurrence) : Prop :=
  o.record.alike p.record = true

/-- The objects under a key at two places are alike if the records that they hold are. -/
theorem Occurrence.rel_inner? {o p : Occurrence} {key : String}
    (h : Option.Rel (fun r s => r.alike s = true) (o.record.record? key) (p.record.record? key)) :
    Option.Rel Occurrence.Alike (o.inner? key) (p.inner? key) := by
  rw [← record_inner?, ← record_inner?] at h
  cases ho : o.inner? key with
  | none =>
      cases hp : p.inner? key with
      | none => exact .none
      | some j => simp [ho, hp] at h
  | some i =>
      cases hp : p.inner? key with
      | none => simp [ho, hp] at h
      | some j =>
          rw [ho, hp, Option.map_some, Option.map_some, Option.rel_some_some] at h
          exact .some h

/-! ## Records of models -/

namespace ModelRecord

variable {r s : Record}

/-- What a model must have is found in both records or in none. -/
theorem agreeing_required {key : String} (h : Record.AnswersAlike key r s) (kind : RecordKind) :
    Agreeing Occurrence.Alike (required ⟨r⟩ key kind) (required ⟨s⟩ key kind) := by
  have hinner : Option.Rel Occurrence.Alike ((Occurrence.root r).inner? key)
      ((Occurrence.root s).inner? key) := Occurrence.rel_inner? h.record
  rw [required, required]
  rcases none_or_some_of_rel hinner with ⟨hx, hy⟩ | ⟨o, p, hx, hy, halike⟩
  · simp only [hx, hy]
    exact .error _
  · simp only [hx, hy, (Record.alike_iff.1 halike).kind]
    split
    · exact .ok halike
    · exact .error _

/-- Alike records are both accepted as those of models, or refused with the same fault, if they
answer the lookups of the dataset and of the trainer alike. -/
theorem agreeing_ofRecord (h : r.alike s = true) (hdataset : Record.AnswersAlike "dataset" r s)
    (htrainer : Record.AnswersAlike "trainer" r s) :
    Agreeing (fun m n => m.alike n = true) (ofRecord r) (ofRecord s) := by
  have hd := agreeing_required hdataset .dataset
  have ht := agreeing_required htrainer .trainer
  rw [ofRecord, ofRecord, (Record.alike_iff.1 h).kind]
  split
  · rw [dataset, dataset, trainer, trainer]
    revert hd ht
    generalize required ⟨r⟩ "dataset" .dataset = d
    generalize required ⟨s⟩ "dataset" .dataset = d'
    generalize required ⟨r⟩ "trainer" .trainer = t
    generalize required ⟨s⟩ "trainer" .trainer = t'
    rintro (_ | _) (_ | _)
    · exact .ok h
    · exact .error _
    · exact .error _
    · exact .error _
  · exact .error _

end ModelRecord

/-! ## Lineages -/

/-- Whether two lineages lead through alike objects to alike ones. -/
structure Lineage.Alike (l m : Lineage) : Prop where
  leaf : l.leaf.Alike m.leaf
  wrapper : l.wrapper.Alike m.wrapper
  outer : List.Forall₂ Occurrence.Alike l.outer m.outer

/-- Whether the key of the source is settled in a record and in all that lead to it as datasets. -/
def Record.SourcesSettled (r : Record) : Prop :=
  ∀ d, Relation.ReflTransGen (fun d source => d.record? "source-provenance" = some source) r d →
    d.kind = .dataset → d.Settled "source-provenance"

/-- Sources are settled if the first one is, and those inside it. -/
theorem Record.sourcesSettled_iff {r : Record} :
    r.SourcesSettled ↔ (r.kind = .dataset → r.Settled "source-provenance") ∧
      ∀ source, r.record? "source-provenance" = some source → source.SourcesSettled := by
  constructor
  · intro h
    exact ⟨h r .refl, fun source hsource d hd => h d (.head hsource hd)⟩
  · rintro ⟨hhere, hsources⟩ d hd
    rcases hd.cases_head with rfl | ⟨source, hsource, hrest⟩
    · exact hhere
    · exact hsources source hsource d hrest

namespace Occurrence

variable {o p source : Occurrence}

/-- The sources of alike datasets are alike, if there are any. -/
theorem rel_source (h : o.Alike p) (ho : o.record.SourcesSettled) (hp : p.record.SourcesSettled)
    (hkind : o.record.kind = .dataset) :
    Option.Rel Occurrence.Alike (o.inner? "source-provenance") (p.inner? "source-provenance") := by
  have hsettled := (Record.sourcesSettled_iff.1 ho).1 hkind
  have hsettled' := (Record.sourcesSettled_iff.1 hp).1 ((Record.alike_iff.1 h).kind ▸ hkind)
  have hfields := (Record.bothAlike_field?_iff h hsettled).2 hsettled'
  exact rel_inner? (Record.answersAlike_iff.2 hfields).record

/-- If the key of the source is settled all the way down, then it is so from the source on. -/
theorem sourcesSettled_of_inner? (h : o.record.SourcesSettled)
    (hinner : o.inner? "source-provenance" = some source) : source.record.SourcesSettled := by
  apply (Record.sourcesSettled_iff.1 h).2
  rw [← record_inner?, hinner, Option.map_some]

/-- The lineages of alike datasets agree if the key of the source is settled all the way down. -/
theorem agreeing_lineage (h : o.Alike p) (ho : o.record.SourcesSettled)
    (hp : p.record.SourcesSettled) : Agreeing Lineage.Alike o.lineage p.lineage := by
  have hlike := Record.alike_iff.1 h
  fun_induction Occurrence.lineage o generalizing p with
  | case1 o hkind hinner =>
      rcases none_or_some_of_rel (rel_source h ho hp hkind) with ⟨-, hinner'⟩ | ⟨i, j, hi, -, -⟩
      · rw [lineage_eq, ← hlike.kind, if_pos hkind, hinner', hlike.className]
        exact .error _
      · simp [hinner] at hi
  | case2 o hkind source hinner hsource ih =>
      obtain ⟨source', hinner', halike⟩ := exists_some_of_rel (rel_source h ho hp hkind) hinner
      have hrest := ih halike (sourcesSettled_of_inner? ho hinner)
        (sourcesSettled_of_inner? hp hinner') (Record.alike_iff.1 halike)
      rw [p.lineage_eq, ← hlike.kind, if_pos hkind, hinner']
      simp only [← (Record.alike_iff.1 halike).kind, hsource]
      exact hrest.map fun l m hlm => ⟨hlm.leaf, hlm.wrapper, .cons h hlm.outer⟩
  | case3 o hkind source hinner hsource =>
      obtain ⟨source', hinner', halike⟩ := exists_some_of_rel (rel_source h ho hp hkind) hinner
      rw [(Record.alike_iff.1 halike).kind] at hsource
      rw [lineage_of_source (hlike.kind ▸ hkind) hinner' (.inl hsource)]
      exact .ok ⟨halike, h, .nil⟩
  | case4 o hkind source hinner hsource =>
      obtain ⟨source', hinner', halike⟩ := exists_some_of_rel (rel_source h ho hp hkind) hinner
      rw [(Record.alike_iff.1 halike).kind] at hsource
      rw [lineage_of_source (hlike.kind ▸ hkind) hinner' (.inr hsource)]
      exact .ok ⟨halike, h, .nil⟩
  | case5 o hkind source hinner hdataset hdata hsplit =>
      obtain ⟨source', hinner', halike⟩ := exists_some_of_rel (rel_source h ho hp hkind) hinner
      rw [lineage_eq, ← hlike.kind, if_pos hkind, hinner']
      simp only [← (Record.alike_iff.1 halike).kind, ← (Record.alike_iff.1 halike).className,
        ← hlike.className]
      cases hsource : source.record.kind with
      | dataset => exact absurd hsource hdataset
      | dataSource => exact absurd hsource hdata
      | splitDataSource => exact absurd hsource hsplit
      | model | trainer | component => exact .error _
  | case6 o hkind =>
      rw [lineage_eq, ← hlike.kind, if_neg hkind, ← hlike.className]
      exact .error _

end Occurrence

/-! ## What alike records answer -/

namespace Record

/-- Of two alike records either both have a field with a key or none.  A key that a record repeats
neither among its configured fields nor among its recorded ones is settled in it, and of a key that
is settled in one of the records they answer all lookups alike exactly if it is settled in the other
one.  They are accepted as records of models together if the keys of the dataset and of the trainer
are settled in both, and their lineages agree if the key of the source is settled all the way. -/
theorem answers_of_alike {r s : Record} (h : r.alike s = true) :
    (∀ key, (r.field? key).isSome = (s.field? key).isSome) ∧
    (∀ key, Keyed.Unrepeated key r.configured → Keyed.Unrepeated key r.recorded →
      r.Settled key) ∧
    (∀ key, r.Settled key → (AnswersAlike key r s ↔ s.Settled key)) ∧
    ((∀ key ∈ ["dataset", "trainer"], r.Settled key ∧ s.Settled key) →
      Agreeing (fun m n => m.alike n = true) (ModelRecord.ofRecord r) (ModelRecord.ofRecord s)) ∧
    (r.SourcesSettled → s.SourcesSettled → Agreeing Lineage.Alike r.lineage s.lineage) := by
  have hanswers : ∀ key, r.Settled key → (AnswersAlike key r s ↔ s.Settled key) :=
    fun key hr => answersAlike_iff.trans (bothAlike_field?_iff h hr)
  refine ⟨fun key => ?_, fun key => settled_of_unrepeated h, hanswers, fun hsettled => ?_, ?_⟩
  · rw [isSome_field?, isSome_field?, (bothAlike_lasting? h key).isSome_eq]
  · obtain ⟨⟨hr, hs⟩, ⟨hr', hs'⟩, -⟩ := by simpa only [List.forall_mem_cons] using hsettled
    exact ModelRecord.agreeing_ofRecord h ((hanswers _ hr).2 hs) ((hanswers _ hr').2 hs')
  · exact @Occurrence.agreeing_lineage (.root r) (.root s) h

/-- Two records of a dataset and, around them, two of a model, whose fields stand in two orders; a
count of the dataset stands in both lists of fields. -/
theorem answers_of_alike_reordered :
    let source := Record.rebuildable .dataSource "CSVSource" [("path", .text "d.csv")] []
    let trainer := Record.rebuildable .trainer "SVMTrainer" [] []
    let d := Record.mk .dataset "MutableDataset" false [("num-examples", .long 4)]
      [("num-examples", .long 3), ("source-provenance", source.node)]
    let d' := Record.mk .dataset "MutableDataset" false [("num-examples", .long 4)]
      [("source-provenance", source.node), ("num-examples", .long 3)]
    let m := Record.observed .model "SVMModel" [("dataset", d.node), ("trainer", trainer.node)]
    let m' := Record.observed .model "SVMModel" [("trainer", trainer.node), ("dataset", d'.node)]
    d.alike d' = true ∧ m.alike m' = true ∧ AnswersAlike "num-examples" d d' ∧
      Agreeing Lineage.Alike d.lineage d'.lineage ∧
      Agreeing (fun m n => m.alike n = true)
        (ModelRecord.ofRecord m) (ModelRecord.ofRecord m') := by
  intro source trainer d d' m m'
  have hd : d.alike d' = true := by rfl
  have hm : m.alike m' = true := by rfl
  have hd' : d'.alike d = true := Node.alike_symm hd
  have hm' : m'.alike m = true := Node.alike_symm hm
  obtain ⟨-, -, hanswers, -, hlineages⟩ := answers_of_alike hd
  obtain ⟨-, -, -, haccepted, -⟩ := answers_of_alike hm
  have hcount : d.Settled "num-examples" := settled_of_unrepeated hd (by decide) (by decide)
  have hcount' : d'.Settled "num-examples" := settled_of_unrepeated hd' (by decide) (by decide)
  have hkeys : ∀ key ∈ ["dataset", "trainer"], m.Settled key ∧ m'.Settled key := by
    simp only [List.forall_mem_cons, List.not_mem_nil, false_imp_iff, implies_true, and_true]
    exact ⟨⟨settled_of_unrepeated hm (by decide) (by decide),
      settled_of_unrepeated hm' (by decide) (by decide)⟩,
      settled_of_unrepeated hm (by decide) (by decide),
      settled_of_unrepeated hm' (by decide) (by decide)⟩
  have hnone : source.record? "source-provenance" = none := by rfl
  have hleaf : source.SourcesSettled :=
    sourcesSettled_iff.2 ⟨nofun, fun s hs => by simp [hnone] at hs⟩
  have hsome : d.record? "source-provenance" = some source := by rfl
  have hsome' : d'.record? "source-provenance" = some source := by rfl
  have hsources : d.SourcesSettled := sourcesSettled_iff.2
    ⟨fun _ => settled_of_unrepeated hd (by decide) (by decide), fun s hs => by
      rwa [← Option.some.inj (hsome.symm.trans hs)]⟩
  have hsources' : d'.SourcesSettled := sourcesSettled_iff.2
    ⟨fun _ => settled_of_unrepeated hd' (by decide) (by decide), fun s hs => by
      rwa [← Option.some.inj (hsome'.symm.trans hs)]⟩
  exact ⟨hd, hm, (hanswers _ hcount).2 hcount', hlineages hsources hsources', haccepted hkeys⟩

/-- Records in which a key is repeated, and alike ones in which it is not: a parameter is answered
with another number, a source is missing, and a record of a model is refused. -/
theorem not_answersAlike_repeated :
    let kernel (fields : Fields) := Record.rebuildable .component "RBFKernel" fields []
    let source := Record.rebuildable .dataSource "CSVSource" [("path", .text "d.csv")] []
    let dataset (fields : Fields) := Record.observed .dataset "MutableDataset" fields
    let trainer := Record.rebuildable .trainer "SVMTrainer" [] []
    let made := dataset [("source-provenance", source.node)]
    let model (fields : Fields) := Record.observed .model "SVMModel"
      (fields ++ [("dataset", made.node), ("trainer", trainer.node)])
    ((kernel [("gamma", .long 1), ("gamma", .long 2)]).alike (kernel [("gamma", .long 2)]) = true ∧
      (kernel [("gamma", .long 1), ("gamma", .long 2)]).long? "gamma" = some 1 ∧
      (kernel [("gamma", .long 2)]).long? "gamma" = some 2) ∧
    ((dataset [("source-provenance", .text "none"), ("source-provenance", source.node)]).alike
        made = true ∧
      (dataset [("source-provenance", .text "none"), ("source-provenance", source.node)]).lineage =
        .error (.recovery (.noSource "MutableDataset")) ∧
      ∃ l, made.lineage = .ok l) ∧
    ((model [("dataset", .text "none")]).alike (model []) = true ∧
      ModelRecord.ofRecord (model [("dataset", .text "none")]) = .error ⟨"dataset", .missing⟩ ∧
      ModelRecord.ofRecord (model []) = .ok ⟨model []⟩) := by
  intro kernel source dataset trainer made model
  refine ⟨⟨by rfl, by rfl, by rfl⟩, ⟨by rfl, ?_, ?_⟩, by rfl, by rfl, by rfl⟩
  · rw [lineage, Occurrence.lineage_eq]
    rfl
  · exact ⟨_, Occurrence.lineage_of_source rfl rfl (.inl rfl)⟩

end Record
end Retrace
