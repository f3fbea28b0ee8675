import Retrace.Proofs.DoubleEquality
import Retrace.Proofs.RecordedDoubles
import Retrace.Reproduction

/-!
# Features and labels are told apart by their texts

Two models are compared by the texts of their features and labels.  The name of a feature may be any
text, also one that looks like the fields that are written behind it.  But no field holds a comma,
so the fields are what stands behind the last four commas, and all before them is the name.  The
names of observed labels hold no comma either.  Texts are equal therefore only where features and
labels are, and the comparison says exactly what the first difference is.

Main results:

- Theorem `FeatureInfo.render_injective`: features with one text are one feature.
- Theorem `LabelCounts.render_injective`: so are counts of labels without commas in their names.
- Theorem `Model.disagreement?_exact`: which disagreement of two models is found.
-/

namespace Retrace

/-! ## The same double -/

/-- Whether two doubles have the same bits, or neither is a number. -/
def Double.Same (x y : Float) : Prop :=
  x.toBits = y.toBits ∨ x.isNaN = true ∧ y.isNaN = true

/-- There is one double that is no number. -/
theorem Double.eq_of_isNaN {x y : Float} (hx : x.isNaN = true) (hy : y.isNaN = true) : x = y := by
  have hunpacked : ∀ u : Float.Model.UnpackedFloat, u.isNaN = true → u = .notANumber := by
    rintro (s | _ | s | ⟨s, m, e, hm⟩) h
    · exact absurd h (by simp [Float.Model.UnpackedFloat.isNaN])
    · rfl
    · exact absurd h (by simp [Float.Model.UnpackedFloat.isNaN])
    · exact absurd h (by simp [Float.Model.UnpackedFloat.isNaN])
  rw [← pack_unpack x, ← pack_unpack y, hunpacked _ hx, hunpacked _ hy]

theorem Double.same_iff {x y : Float} : Double.Same x y ↔ x = y := by
  constructor
  · rintro (hbits | ⟨hx, hy⟩)
    · exact Decimal.eq_of_toBits (congrArg UInt64.toNat hbits)
    · exact eq_of_isNaN hx hy
  · rintro rfl
    exact .inl rfl

/-! ## Cutting texts -/

/-- What stands behind the last of some character is found again. -/
theorem append_cons_inj_of_notMem_right {β : Type} {c : β} {a b s t : List β} (hs : c ∉ s)
    (ht : c ∉ t) (h : a ++ c :: s = b ++ c :: t) : a = b ∧ s = t := by
  rcases List.append_eq_append_iff.1 h with ⟨more, rfl, hmore⟩ | ⟨more, rfl, hmore⟩
  · cases more with
    | nil => exact ⟨(List.append_nil a).symm, (List.cons.inj hmore).2⟩
    | cons d more =>
        obtain ⟨-, rfl⟩ := List.cons.inj hmore
        exact absurd (by simp) hs
  · cases more with
    | nil => exact ⟨List.append_nil b, (List.cons.inj hmore).2.symm⟩
    | cons d more =>
        obtain ⟨-, rfl⟩ := List.cons.inj hmore
        exact absurd (by simp) ht

/-- Texts that are not empty and hold no separator are found again between separators. -/
theorem intercalate_injective {c : Char} {xs ys : List (List Char)}
    (hxs : ∀ x ∈ xs, x ≠ [] ∧ c ∉ x) (hys : ∀ y ∈ ys, y ≠ [] ∧ c ∉ y)
    (h : [c].intercalate xs = [c].intercalate ys) : xs = ys := by
  have hsplit : ∀ zs : List (List Char), (∀ z ∈ zs, z ≠ [] ∧ c ∉ z) → zs ≠ [] →
      ([c].intercalate zs).splitOn c = zs :=
    fun zs hzs hne => List.splitOn_intercalate c (fun z hz => (hzs z hz).2) hne
  -- the empty text would be split into one empty text
  have hnil : ∀ zs : List (List Char), (∀ z ∈ zs, z ≠ [] ∧ c ∉ z) →
      [c].intercalate zs = [] → zs = [] := by
    intro zs hzs hempty
    by_contra hne
    have hone := hsplit zs hzs hne
    rw [hempty, List.splitOn_nil] at hone
    exact (hzs [] (by rw [← hone]; exact List.mem_singleton_self [])).1 rfl
  by_cases hx : xs = []
  · subst hx
    exact (hnil ys hys h.symm).symm
  · by_cases hy : ys = []
    · subst hy
      exact hnil xs hxs h
    · rw [← hsplit xs hxs hx, h, hsplit ys hys hy]

theorem toList_toString (n : Nat) : (toString n).toList = Decimal.natDigits n :=
  Nat.toList_repr

/-! ## Features -/

namespace FeatureInfo

/-- The text of a feature with its fields behind the last four commas. -/
theorem toList_render (f : FeatureInfo) :
    f.render.toList = "RealFeature(name=".toList ++
      ((((f.name.toList ++ ',' :: ("id=".toList ++ Decimal.natDigits f.id)) ++
        ',' :: ("count=".toList ++ Decimal.natDigits f.count)) ++
        ',' :: ("max=".toList ++ Decimal.recorded.chars f.max)) ++
        ',' :: ("min=".toList ++ (Decimal.recorded.chars f.min ++ [')']))) := by
  have hid : ",id=".toList = ',' :: "id=".toList := rfl
  have hcount : ",count=".toList = ',' :: "count=".toList := rfl
  have hmax : ",max=".toList = ',' :: "max=".toList := rfl
  have hmin : ",min=".toList = ',' :: "min=".toList := rfl
  have hend : ")".toList = [')'] := rfl
  unfold render
  simp only [Decimal.Layout.render, String.toList_append, String.toList_ofList, toList_toString,
    hid, hcount, hmax, hmin, hend, List.append_assoc, List.cons_append]

/-- Features with one text are one feature. -/
theorem render_injective {f g : FeatureInfo} (h : f.render = g.render) : f = g := by
  have hword : ∀ (word : List Char) (n : Nat), ',' ∉ word →
      ',' ∉ word ++ Decimal.natDigits n := by
    intro word n hword
    simp [hword, Decimal.comma_notMem_natDigits]
  have hid := fun n => hword "id=".toList n (by decide)
  have hcount := fun n => hword "count=".toList n (by decide)
  have hmax : ∀ x, ',' ∉ "max=".toList ++ Decimal.recorded.chars x := by
    intro x
    simp [Decimal.comma_notMem_recorded]
  have hmin : ∀ x, ',' ∉ "min=".toList ++ (Decimal.recorded.chars x ++ [')']) := by
    intro x
    simp [Decimal.comma_notMem_recorded]
  have htext := congrArg String.toList h
  rw [toList_render, toList_render] at htext
  obtain ⟨htext, hlast⟩ :=
    append_cons_inj_of_notMem_right (hmin _) (hmin _) (List.append_cancel_left htext)
  obtain ⟨htext, hgreatest⟩ := append_cons_inj_of_notMem_right (hmax _) (hmax _) htext
  obtain ⟨htext, htimes⟩ := append_cons_inj_of_notMem_right (hcount _) (hcount _) htext
  obtain ⟨hname, hnumber⟩ := append_cons_inj_of_notMem_right (hid _) (hid _) htext
  rw [FeatureInfo.mk.injEq]
  exact ⟨String.toList_inj.1 hname,
    Decimal.natDigits_injective (List.append_cancel_left hnumber),
    Decimal.natDigits_injective (List.append_cancel_left htimes),
    Decimal.recorded_injective (List.append_cancel_right (List.append_cancel_left hlast)),
    Decimal.recorded_injective (List.append_cancel_left hgreatest)⟩

/-- Whether two features agree in all that was observed of them, doubles by their bits. -/
structure Same (f g : FeatureInfo) : Prop where
  name : f.name = g.name
  id : f.id = g.id
  count : f.count = g.count
  min : Double.Same f.min g.min
  max : Double.Same f.max g.max

theorem same_iff {f g : FeatureInfo} : f.Same g ↔ f = g := by
  constructor
  · rintro ⟨hname, hid, hcount, hmin, hmax⟩
    rw [FeatureInfo.mk.injEq]
    exact ⟨hname, hid, hcount, Double.same_iff.1 hmin, Double.same_iff.1 hmax⟩
  · rintro rfl
    exact ⟨rfl, rfl, rfl, Double.same_iff.2 rfl, Double.same_iff.2 rfl⟩

end FeatureInfo

/-! ## Feature maps -/

namespace FeatureMap

/-- Whether two feature maps agree feature by feature. -/
def Same (m n : FeatureMap) : Prop :=
  List.Forall₂ FeatureInfo.Same m.features n.features

theorem same_iff {m n : FeatureMap} : m.Same n ↔ m = n := by
  have hsame : FeatureInfo.Same = Eq := by
    funext f g
    exact propext FeatureInfo.same_iff
  rw [Same, hsame, List.forall₂_eq_eq_eq, FeatureMap.mk.injEq]

/-- Whether the features at an index differ, and those before it do not. -/
structure FirstDiffer (m n : FeatureMap) (index : Nat) : Prop where
  here : ∃ f g, m.get? index = some f ∧ n.get? index = some g ∧ ¬f.Same g
  before : ∀ i < index, ∃ f g, m.get? i = some f ∧ n.get? i = some g ∧ f.Same g

/-- What is found between lists of one length: nothing if they are one list, and else the first
place where they differ. -/
theorem firstDifference_spec {fs gs : List FeatureInfo} (hlength : fs.length = gs.length)
    (index : Nat) :
    (firstDifference index fs gs = none ∧ fs = gs) ∨
      ∃ i, firstDifference index fs gs = some (index + i) ∧ FirstDiffer ⟨fs⟩ ⟨gs⟩ i := by
  induction fs generalizing gs index with
  | nil =>
      obtain rfl := List.eq_nil_of_length_eq_zero hlength.symm
      exact .inl ⟨rfl, rfl⟩
  | cons f fs ih =>
      cases gs with
      | nil => exact absurd hlength (by simp)
      | cons g gs =>
          rw [firstDifference]
          by_cases htext : f.render = g.render
          · rw [if_pos htext]
            obtain rfl := FeatureInfo.render_injective htext
            rcases ih (Nat.succ.inj hlength) (index + 1) with ⟨hnone, rfl⟩ | ⟨i, hsome, hdiffer⟩
            · exact .inl ⟨hnone, rfl⟩
            · have hplace : index + 1 + i = index + (i + 1) := by omega
              refine .inr ⟨i + 1, hplace ▸ hsome, hdiffer.here, ?_⟩
              intro j hj
              cases j with
              | zero => exact ⟨f, f, rfl, rfl, FeatureInfo.same_iff.2 rfl⟩
              | succ j => exact hdiffer.before j (Nat.lt_of_succ_lt_succ hj)
          · rw [if_neg htext]
            refine .inr ⟨0, rfl, ⟨f, g, rfl, rfl, fun hsame => htext ?_⟩, by simp⟩
            rw [FeatureInfo.same_iff.1 hsame]

/-- There is one first difference. -/
theorem FirstDiffer.unique {m n : FeatureMap} {i j : Nat} (hi : m.FirstDiffer n i)
    (hj : m.FirstDiffer n j) : i = j := by
  have hle : ∀ {i j : Nat}, m.FirstDiffer n i → m.FirstDiffer n j → ¬i < j := by
    intro i j hi hj hlt
    obtain ⟨f, g, hf, hg, hdiffer⟩ := hi.here
    obtain ⟨f', g', hf', hg', hsame⟩ := hj.before i hlt
    rw [hf, Option.some.injEq] at hf'
    rw [hg, Option.some.injEq] at hg'
    rw [hf', hg'] at hdiffer
    exact hdiffer hsame
  exact Nat.le_antisymm (Nat.not_lt.1 (hle hj hi)) (Nat.not_lt.1 (hle hi hj))

/-- Features that differ somewhere are not the same. -/
theorem FirstDiffer.ne {m n : FeatureMap} {i : Nat} (h : m.FirstDiffer n i) : m ≠ n := by
  rintro rfl
  obtain ⟨f, g, hf, hg, hdiffer⟩ := h.here
  rw [hf, Option.some.injEq] at hg
  exact hdiffer (FeatureInfo.same_iff.2 hg)

end FeatureMap

/-! ## Labels -/

namespace LabelCounts

/-- Observed labels have one of two names. -/
theorem name_of_mem_observe (samples : List (Sample Float)) :
    ∀ e ∈ (observe samples).counts, e.1 = "+1" ∨ e.1 = "-1" := by
  have hfold : ∀ (samples : List (Sample Float)) (counts : List (String × Nat)),
      (∀ e ∈ counts, e.1 = "+1" ∨ e.1 = "-1") →
        ∀ e ∈ samples.foldl (fun counts s => count1 (labelName s.label) counts) counts,
          e.1 = "+1" ∨ e.1 = "-1" := by
    intro samples
    induction samples with
    | nil => exact fun _ h => h
    | cons s rest ih =>
        intro counts h
        apply ih
        intro e he
        rcases Keyed.mem_insert he with rfl | he
        · change labelName s.label = "+1" ∨ labelName s.label = "-1"
          unfold labelName
          split
          · exact .inl rfl
          · exact .inr rfl
        · exact h e he
  exact hfold samples [] (by simp)

/-- The text of one count. -/
def entryChars (e : String × Nat) : List Char :=
  e.1.toList ++ '=' :: Decimal.natDigits e.2

/-- What is printed of a label and its count determines both. -/
theorem entryChars_injective {d e : String × Nat} (h : entryChars d = entryChars e) : d = e := by
  have hdigits : ∀ n, '=' ∉ Decimal.natDigits n := fun n hmem =>
    absurd (Decimal.isDigit_of_mem_natDigits hmem) (by decide)
  obtain ⟨hname, hcount⟩ := append_cons_inj_of_notMem_right (hdigits _) (hdigits _) h
  exact Prod.ext (String.toList_inj.1 hname) (Decimal.natDigits_injective hcount)

/-- Label counts are printed entry by entry. -/
theorem toList_render (l : LabelCounts) :
    l.render.toList =
      "LabelInfo(".toList ++ ([','].intercalate (l.counts.map entryChars) ++ [')']) := by
  have hentries : (l.counts.map fun e => e.1 ++ "=" ++ toString e.2).map String.toList =
      l.counts.map entryChars := by
    rw [List.map_map]
    apply List.map_congr_left
    intro e _
    have hequal : "=".toList = ['='] := rfl
    simp only [Function.comp_apply, String.toList_append, toList_toString, hequal, entryChars,
      List.append_assoc, List.singleton_append]
  rw [render, String.toList_append, String.toList_append, String.toList_intercalate, hentries,
    List.append_assoc]
  rfl

/-- Counts with one text are the same counts, if the names of their labels hold no comma. -/
theorem render_injective {l m : LabelCounts} (hl : ∀ e ∈ l.counts, ',' ∉ e.1.toList)
    (hm : ∀ e ∈ m.counts, ',' ∉ e.1.toList) (h : l.render = m.render) : l = m := by
  have hentry : ∀ counts : List (String × Nat), (∀ e ∈ counts, ',' ∉ e.1.toList) →
      ∀ x ∈ counts.map entryChars, x ≠ [] ∧ ',' ∉ x := by
    intro counts hcounts x hx
    obtain ⟨e, he, rfl⟩ := List.mem_map.1 hx
    refine ⟨by simp [entryChars], ?_⟩
    simp [entryChars, hcounts e he, Decimal.comma_notMem_natDigits]
  have htext := congrArg String.toList h
  rw [toList_render, toList_render] at htext
  have hmap := intercalate_injective (hentry _ hl) (hentry _ hm)
    (List.append_cancel_right (List.append_cancel_left htext))
  rw [LabelCounts.mk.injEq]
  exact List.map_injective_iff.2 (fun _ _ => entryChars_injective) hmap

/-- Observed counts with one text are the same counts. -/
theorem render_observe_iff {samples others : List (Sample Float)} :
    (observe samples).render = (observe others).render ↔ observe samples = observe others := by
  have hname : ∀ samples : List (Sample Float),
      ∀ e ∈ (observe samples).counts, ',' ∉ e.1.toList := by
    intro samples e he
    rcases name_of_mem_observe samples e he with h | h <;> rw [h] <;> decide
  exact ⟨render_injective (hname samples) (hname others), congrArg render⟩

end LabelCounts

/-! ## Models -/

/-- What two models disagree on is what the comparison of their texts says.  It finds nothing
exactly if they have the same features and the same label counts.  It finds their numbers of
features exactly if these differ, and an index exactly if it is the first one at which features of
as many differ; and it finds the labels exactly if they differ while the features do not.  Names of
features may be any texts. -/
theorem Model.disagreement?_exact {a b : Model} {samples others : List (Sample Float)}
    (ha : a.labels = .observe samples) (hb : b.labels = .observe others) :
    (a.disagreement? b = none ↔ a.features.Same b.features ∧ a.labels = b.labels) ∧
    (∀ m n, a.disagreement? b = some (.featureCount m n) ↔
      a.features.size ≠ b.features.size ∧ m = a.features.size ∧ n = b.features.size) ∧
    (∀ i, a.disagreement? b = some (.feature i) ↔
      a.features.size = b.features.size ∧ a.features.FirstDiffer b.features i) ∧
    (a.disagreement? b = some .labels ↔ a.features.Same b.features ∧ a.labels ≠ b.labels) := by
  have hlabels : a.labels.render = b.labels.render ↔ a.labels = b.labels := by
    rw [ha, hb]
    exact LabelCounts.render_observe_iff
  simp only [FeatureMap.same_iff]
  -- numbers of features are compared first, then the features in order, and the labels last
  by_cases hsize : a.features.size = b.features.size
  · rcases FeatureMap.firstDifference_spec hsize 0 with ⟨hnone, hsame⟩ | ⟨i, hsome, hdiffer⟩
    · have hfeatures : a.features = b.features := by
        rw [← FeatureMap.same_iff, FeatureMap.Same, hsame]
        exact List.forall₂_same.2 fun f _ => FeatureInfo.same_iff.2 rfl
      have hfirst : ∀ i, ¬b.features.FirstDiffer b.features i := fun i h => h.ne rfl
      by_cases hequal : a.labels = b.labels
      · have hfound : a.disagreement? b = none := by
          rw [disagreement?, if_neg (not_not.2 hsize), hnone]
          exact if_neg (not_not.2 (hlabels.2 hequal))
        rw [hfound]
        simp [hfeatures, hequal, hfirst]
      · have hfound : a.disagreement? b = some .labels := by
          rw [disagreement?, if_neg (not_not.2 hsize), hnone]
          exact if_pos (mt hlabels.1 hequal)
        rw [hfound]
        simp [hfeatures, hequal, hfirst]
    · have hfound : a.disagreement? b = some (.feature i) := by
        rw [disagreement?, if_neg (not_not.2 hsize), hsome, Nat.zero_add]
      have hne : a.features ≠ b.features := hdiffer.ne
      rw [hfound]
      refine ⟨by simp [hne], by simp [hsize], fun j => ?_, by simp [hne]⟩
      constructor
      · rintro h
        obtain rfl : i = j := by simpa using h
        exact ⟨hsize, hdiffer⟩
      · rintro ⟨-, h⟩
        rw [hdiffer.unique h]
  · have hfound : a.disagreement? b =
        some (.featureCount a.features.size b.features.size) := by
      rw [disagreement?, if_pos hsize]
    have hne : a.features ≠ b.features := fun h => hsize (congrArg FeatureMap.size h)
    rw [hfound]
    simp [hne, hsize, eq_comm]

/-- A model of nothing that knows features with these names and one sample with each label, the
first of which has a value that is no number. -/
def Model.knowing (names : List String) : Model :=
  let samples : List (Sample Float) := [⟨⟨[0], [0 / 0]⟩, 1⟩, ⟨⟨[1], [-0]⟩, -1⟩]
  { kernel := .linear
    supportVectors := []
    coefficients := []
    bias := 0
    supportIndices := []
    features := .observe names samples
    labels := .observe samples
    record := ⟨.observed .model className []⟩ }

/-- A name that goes on like the fields of a feature is told apart from the name before these. -/
theorem Model.disagreement?_exact_commas :
    (∃ samples, (knowing ["x", "y"]).labels = .observe samples) ∧
    (∃ samples, (knowing ["x", "y,id=1"]).labels = .observe samples) ∧
    (knowing ["x", "y"]).disagreement? (knowing ["x", "y,id=1"]) = some (.feature 1) ∧
    (knowing ["x", "y"]).disagreement? (knowing ["x", "y"]) = none := by
  have hdiffer := (disagreement?_exact (a := knowing ["x", "y"]) (b := knowing ["x", "y,id=1"])
    rfl rfl).2.2.1 1
  have hsame := (disagreement?_exact (a := knowing ["x", "y"]) (b := knowing ["x", "y"])
    rfl rfl).1
  refine ⟨⟨_, rfl⟩, ⟨_, rfl⟩, hdiffer.2 ⟨rfl, ⟨⟨_, _, rfl, rfl, fun h => ?_⟩, fun i hi => ?_⟩⟩,
    hsame.2 ⟨FeatureMap.same_iff.2 rfl, rfl⟩⟩
  · exact absurd h.name (by decide)
  · obtain rfl : i = 0 := by omega
    exact ⟨_, _, rfl, rfl, FeatureInfo.same_iff.2 rfl⟩

end Retrace
