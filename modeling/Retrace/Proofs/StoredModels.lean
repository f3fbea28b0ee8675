import Retrace.Model.Encoding
import Retrace.Proofs.StoredRecords
import Retrace.Proofs.TrainerConfiguration

/-!
# Models as JSON are read back

Every part of a model is read from the JSON that it is written as exactly if its doubles are finite,
and its record exactly if there is also room for its depth.  Whole numbers must be within the bounds
of their types, as those of a program are.

Main results:

- Theorem `Model.read_encode`: a model is read back exactly if its doubles are finite and there is
  room for the depth of its record.
-/

namespace Retrace

/-! ## Vectors -/

@[simp] theorem SparseVector.isWritten_encode (v : SparseVector Float) :
    v.encode.isWritten = true := by
  simp [encode]

/-- A vector is read back exactly if its values are finite. -/
theorem SparseVector.decode_encode {v : SparseVector Float}
    (hwords : ∀ i ∈ v.indices, i < UInt64.size) (depth : Nat) :
    decode (depth + 2) v.encode = if v.values.all Float.isFinite then some v else none := by
  have hfields := @Json.fields?_record [("indices", .list (v.indices.map .nat)),
    ("values", .list (v.values.map .double))] (by simp)
  simp only [List.map_cons, List.map_nil] at hfields
  rw [decode, encode, hfields]
  simp only [Json.list?, Option.bind_some, Json.each?_nat hwords, Json.each?_double]
  cases v.values.all Float.isFinite <;> rfl

/-! ## Feature maps and label counts -/

/-- The doubles of a feature. -/
def FeatureInfo.doubles (f : FeatureInfo) : List Float :=
  [f.min, f.max]

/-- A feature is read back exactly if its extremes are finite. -/
theorem FeatureInfo.decode_encode {f : FeatureInfo} (hid : f.id < UInt64.size)
    (hcount : f.count < UInt64.size) (depth : Nat) :
    decode (depth + 1) f.encode = if f.doubles.all Float.isFinite then some f else none := by
  have hfields := @Json.fields?_record [("name", .string f.name), ("id", .nat f.id),
    ("count", .nat f.count), ("min", .double f.min), ("max", .double f.max)] (by simp)
  simp only [List.map_cons, List.map_nil] at hfields
  rw [decode, encode, hfields]
  simp only [Json.string?_string, Json.nat?_nat, if_pos (Nat.le_sub_one_of_lt hid),
    if_pos (Nat.le_sub_one_of_lt hcount), Json.double?_double, doubles, List.all_cons, List.all_nil,
    Bool.and_true]
  cases f.min.isFinite <;> cases f.max.isFinite <;> rfl

/-- The doubles of a feature map. -/
def FeatureMap.doubles (m : FeatureMap) : List Float :=
  m.features.flatMap FeatureInfo.doubles

@[simp] theorem FeatureMap.isWritten_encode (m : FeatureMap) : m.encode.isWritten = true := by
  simp [encode, FeatureInfo.encode]

/-- A feature map is read back exactly if its extremes are finite. -/
theorem FeatureMap.decode_encode {m : FeatureMap}
    (hwords : ∀ f ∈ m.features, f.id < UInt64.size ∧ f.count < UInt64.size) (depth : Nat) :
    decode (depth + 3) m.encode = if m.doubles.all Float.isFinite then some m else none := by
  have hfields := @Json.fields?_record [("features", .list (m.features.map FeatureInfo.encode))]
    (by simp)
  have hfeatures := @Json.each?_map FeatureInfo FeatureInfo.encode (FeatureInfo.decode (depth + 1))
    (fun f => f.doubles.all Float.isFinite) m.features fun f hf =>
      FeatureInfo.decode_encode (hwords f hf).1 (hwords f hf).2 depth
  simp only [List.map_cons, List.map_nil] at hfields
  rw [decode, encode, hfields]
  simp only [Json.list?, Option.bind_some, hfeatures, doubles, List.all_flatMap]
  cases m.features.all fun f => f.doubles.all Float.isFinite <;> rfl

@[simp] theorem LabelCounts.isWritten_encode (l : LabelCounts) : l.encode.isWritten = true := by
  simp [encode]

/-- Label counts are read back. -/
theorem LabelCounts.decode_encode {l : LabelCounts} (hascending : Keyed.Ascending l.counts)
    (hwords : ∀ e ∈ l.counts, e.2 < UInt64.size) (depth : Nat) :
    decode (depth + 2) l.encode = some l := by
  have hfields := @Json.fields?_record
    [("counts", .record (l.counts.map fun e => (e.1, .nat e.2)))] (by simp)
  have hcounts := @Json.map?_record Nat Json.nat (Json.nat? (UInt64.size - 1)) l.counts hascending
    fun e he => by rw [Json.nat?_nat, if_pos (Nat.le_sub_one_of_lt (hwords e he))]
  simp only [List.map_cons, List.map_nil] at hfields
  rw [decode, encode, hfields]
  simp only [hcounts, Option.map_some]

/-! ## Kernels -/

namespace Kernel

/-- The members of a kernel without its type. -/
def parameters : Kernel → List (String × Json)
  | .linear => []
  | .rbf gamma => [("gamma", .double gamma)]
  | .polynomial degree gamma coef0 =>
      [("degree", .nat degree.toNat), ("gamma", .double gamma), ("coef0", .double coef0)]

/-- The type of a kernel. -/
def type : Kernel → String
  | .linear => "linear"
  | .rbf _ => "rbf"
  | .polynomial .. => "polynomial"

/-- A kernel is written as its type with its parameters. -/
theorem encode_eq (k : Kernel) : k.encode = .record (("type", .string k.type) :: k.parameters) := by
  cases k <;> rfl

@[simp] theorem isWritten_encode (k : Kernel) : k.encode.isWritten = true := by
  cases k <;> simp [encode]

/-- What is written of a kernel means something at any depth. -/
theorem meaningful_encode (k : Kernel) (depth : Nat) : k.encode.meaningful (depth + 1) = true := by
  rw [encode_eq, Json.meaningful_record, List.all_cons, Json.meaningful_string, Bool.true_and]
  cases k with
  | linear => rfl
  | rbf gamma => simp [parameters, Json.meaningful_double]
  | polynomial degree gamma coef0 =>
      have hdegree : degree.toNat < 2 ^ 53 := Nat.lt_trans degree.toNat_lt (by decide)
      simp [parameters, Json.meaningful_double, Json.meaningful_nat hdegree]

/-- The parameters of a kernel are read back exactly if they are finite. -/
theorem decodeParameters_encode (k : Kernel) :
    decodeParameters k.type (.record k.parameters) =
      if k.doubles.all Float.isFinite then some k else none := by
  cases k with
  | linear => rfl
  | rbf gamma =>
      have hfields := @Json.fields?_record [("gamma", .double gamma)] (by simp)
      simp only [List.map_cons, List.map_nil] at hfields
      have hname : ¬"rbf" = "linear" := by decide
      simp only [type, parameters, decodeParameters, hfields, Json.double?_double, hname, if_false,
        if_true, doubles, List.all_cons, List.all_nil, Bool.and_true]
      cases gamma.isFinite <;> rfl
  | polynomial degree gamma coef0 =>
      have hfields := @Json.fields?_record [("degree", .nat degree.toNat),
        ("gamma", .double gamma), ("coef0", .double coef0)] (by simp)
      simp only [List.map_cons, List.map_nil] at hfields
      have hlinear : ¬"polynomial" = "linear" := by decide
      have hrbf : ¬"polynomial" = "rbf" := by decide
      have hdegree : (Json.nat degree.toNat).smallWord? = some degree := by
        rw [Json.smallWord?, Json.nat?_nat, if_pos (Nat.le_sub_one_of_lt degree.toNat_lt)]
        simp
      simp only [type, parameters, decodeParameters, hfields, Json.double?_double, hlinear, hrbf,
        if_false, if_true, hdegree, doubles, List.all_cons, List.all_nil, Bool.and_true]
      cases gamma.isFinite <;> cases coef0.isFinite <;> rfl

/-- A kernel is read back exactly if its parameters are finite. -/
theorem decode_encode (k : Kernel) (depth : Nat) :
    decode (depth + 1) k.encode = if k.doubles.all Float.isFinite then some k else none := by
  have hmeaningful := meaningful_encode k depth
  have hnodup : ((("type", Json.string k.type) :: k.parameters).map Prod.fst).Nodup := by
    cases k <;> simp [parameters]
  have htype := Json.only?_record hnodup List.mem_cons_self
  have hothers : ((("type", Json.string k.type) :: k.parameters).map fun m =>
      (Json.escape m.1.toList, m.2)).filter (fun m => Json.bodyText? m.1 != some "type") =
        k.parameters.map fun m => (Json.escape m.1.toList, m.2) := by
    rw [List.filter_map]
    simp only [Function.comp_def, Json.bodyText?_escape]
    cases k <;> rfl
  rw [encode_eq, Json.record] at hmeaningful ⊢
  rw [decode, hmeaningful, ← decodeParameters_encode]
  simp only [Bool.not_true, Bool.false_eq_true, if_false, htype, Option.bind_some,
    Json.string?_string, hothers]
  rfl

end Kernel

/-! ## Models -/

/-- A record of a model is read back exactly if its doubles are finite and there is room for its
depth. -/
theorem ModelRecord.read_encode {r : ModelRecord} (hmaps : r.record.MapsAscend)
    (hmodel : ofRecord r.record = .ok r) (depth : Nat) :
    read depth r.record.encode =
      if r.record.doubles.all Float.isFinite && decide (r.record.depth ≤ depth) then some r
      else none := by
  by_cases hfits : r.record.doubles.all Float.isFinite = true ∧ r.record.depth ≤ depth
  · rw [read, Record.read_encode hmaps (List.all_eq_true.1 hfits.1) hfits.2, hfits.1,
      decide_eq_true hfits.2]
    exact congrArg Except.toOption hmodel
  · have hnone : Record.read depth r.record.encode = none := by
      rw [← Option.not_isSome_iff_eq_none]
      intro hread
      obtain ⟨hdepth, hfinite⟩ := Record.fits_of_read hread
      exact hfits ⟨List.all_eq_true.2 hfinite, hdepth⟩
    rw [read, hnone, if_neg (by simpa using hfits)]

namespace Model

/-- The doubles of a model. -/
def doubles (m : Model) : List Float :=
  m.kernel.doubles ++ m.supportVectors.flatMap SparseVector.values ++ m.coefficients ++ [m.bias] ++
    m.features.doubles ++ m.record.record.doubles

/-- Whether the values of a model are those of a program: whole numbers are words, maps are in key
order, and the record is that of a model. -/
structure Storable (m : Model) : Prop where
  vectors : ∀ v ∈ m.supportVectors, ∀ i ∈ v.indices, i < UInt64.size
  indices : ∀ i ∈ m.supportIndices, i < UInt64.size
  features : ∀ f ∈ m.features.features, f.id < UInt64.size ∧ f.count < UInt64.size
  labels : ∀ e ∈ m.labels.counts, e.2 < UInt64.size
  labelsAscend : Keyed.Ascending m.labels.counts
  mapsAscend : m.record.record.MapsAscend
  accepted : ModelRecord.ofRecord m.record.record = .ok m.record

@[simp] theorem isWritten_encode (m : Model) : m.encode.isWritten = true := by
  simp [encode]

/-- A model is read back exactly if its doubles are finite and there is room for the depth of its
record. -/
theorem read_encode {m : Model} (hm : m.Storable) (depth : Nat) :
    read (depth + 4) m.encode =
      if m.doubles.all Float.isFinite && decide (m.record.record.depth ≤ depth + 3) then some m
      else none := by
  have hfields := @Json.fields?_record
    [("kernel", m.kernel.encode),
      ("support_vectors", .list (m.supportVectors.map SparseVector.encode)),
      ("coefficients", .list (m.coefficients.map .double)),
      ("bias", .double m.bias),
      ("support_indices", .list (m.supportIndices.map .nat)),
      ("feature_map", m.features.encode),
      ("label_info", m.labels.encode),
      ("provenance", m.record.record.encode)] (by simp)
  have hvectors : readVectors (depth + 3) (.list (m.supportVectors.map SparseVector.encode)) =
      if m.supportVectors.all fun v => v.values.all Float.isFinite then some m.supportVectors
      else none :=
    Json.each?_map fun v hv => SparseVector.decode_encode (hm.vectors v hv) depth
  have hcoefficients : readCoefficients (depth + 3) (.list (m.coefficients.map .double)) =
      if m.coefficients.all Float.isFinite then some m.coefficients else none :=
    Json.each?_double m.coefficients
  have hindices : readIndices (depth + 3) (.list (m.supportIndices.map .nat)) =
      some m.supportIndices := Json.each?_nat hm.indices
  simp only [List.map_cons, List.map_nil] at hfields
  rw [read, encode, memberNames, hfields]
  simp only [Kernel.decode_encode, hvectors, hcoefficients, Json.double?_double, hindices,
    FeatureMap.decode_encode hm.features, LabelCounts.decode_encode hm.labelsAscend hm.labels,
    ModelRecord.read_encode hm.mapsAscend hm.accepted, doubles, List.all_append, List.all_flatMap,
    List.all_cons, List.all_nil, Bool.and_true]
  cases m.kernel.doubles.all Float.isFinite
  · rfl
  cases m.supportVectors.all fun v => v.values.all Float.isFinite
  · rfl
  cases m.coefficients.all Float.isFinite
  · rfl
  cases m.bias.isFinite
  · rfl
  cases m.features.doubles.all Float.isFinite
  · rfl
  cases m.record.record.doubles.all Float.isFinite <;>
    cases decide (m.record.record.depth ≤ depth + 3) <;> rfl

end Model

end Retrace
