import Retrace.Model.File
import Retrace.Proofs.PrintedInstants
import Retrace.Proofs.PrintedJson
import Retrace.Proofs.StoredModels

/-!
# Model files are read back

A model that is saved is loaded as it was, with the time of saving, exactly if its doubles are
finite and its record nests no deeper than the reader goes.  Every other file that was saved is
refused when it is loaded, as a text that cannot be read: writing does not find out.

Main results:

- Theorem `Text.decodeUtf8_toUTF8`: the bytes of a text are decoded.
- Theorem `ModelFile.load_save`: what loading a file that was saved comes to.
-/

namespace Retrace

/-- The bytes of a text are decoded. -/
theorem Text.decodeUtf8_toUTF8 (s : String) : decodeUtf8 s.toUTF8 = some s.toList := by
  rw [decodeUtf8, String.fromUTF8?, String.toUTF8_eq_toByteArray, dif_pos s.isValidUTF8]
  rfl

namespace Json

/-- A value that is written to a file is parsed as it was. -/
theorem parse_renderPretty {j : Json} (h : j.isWritten = true) :
    parse (ofContent j.renderPretty.toUTF8) = (j, true) := by
  rw [ofContent_of_decodeUtf8 (Text.decodeUtf8_toUTF8 _), renderPretty, String.toList_ofList]
  exact parse_pretty h

/-! ## Refusals -/

/-- Without a member that is refused there is no refusal. -/
theorem refusalAmong_eq_none {names : List String} {readable : String → Json → Bool}
    {refusal : String → Json → Option ExtractionFault} {members : List (List Char × Json)}
    (h : ∀ m ∈ members, ∀ key, bodyText? m.1 = some key → refusal key m.2 = none)
    (seen : List String) : refusalAmong names readable refusal seen members = none := by
  induction members generalizing seen with
  | nil => rfl
  | cons m rest ih =>
      obtain ⟨body, j⟩ := m
      obtain ⟨hfirst, hrest⟩ := List.forall_mem_cons.1 h
      rw [refusalAmong]
      split
      · rfl
      · rename_i key hkey
        simp only [hfirst key hkey, ih hrest, ite_self]

/-- An object that was written is not refused if none of its members is. -/
theorem refusalAmong_record {names : List String} {readable : String → Json → Bool}
    {refusal : String → Json → Option ExtractionFault} {members : List (String × Json)}
    (h : ∀ m ∈ members, refusal m.1 m.2 = none) :
    refusalAmong names readable refusal [] ((record members).membersInOrder names) = none := by
  apply refusalAmong_eq_none
  rw [record, membersInOrder]
  intro m hm key hkey
  obtain ⟨n, hn, rfl⟩ := List.mem_map.1 hm
  rw [bodyText?_escape, Option.some.injEq] at hkey
  exact hkey ▸ h n hn

end Json

/-- The record of a model is never refused: either it cannot be read, or it is accepted. -/
theorem ModelRecord.refusal_encode {r : ModelRecord} (hmaps : r.record.MapsAscend)
    (hmodel : ofRecord r.record = .ok r) (depth : Nat) : refusal depth r.record.encode = none := by
  rw [refusal]
  cases hread : Record.read depth r.record.encode with
  | none => rfl
  | some found =>
      obtain ⟨hdepth, hfinite⟩ := Record.fits_of_read (by rw [hread]; rfl)
      rw [Record.read_encode hmaps hfinite hdepth, Option.some.injEq] at hread
      simp only [← hread, hmodel]

/-- A model that was written is not refused. -/
theorem Model.refusal_encode {m : Model} (hm : m.Storable) (depth : Nat) :
    refusal depth m.encode = none := by
  cases depth with
  | zero => rfl
  | succ depth =>
      refine Json.refusalAmong_record fun member hmember => ?_
      by_cases hname : member.1 = "provenance"
      · have hrecord : member.2 = m.record.record.encode := by
          simp only [List.mem_cons, List.not_mem_nil, or_false] at hmember
          rcases hmember with rfl | rfl | rfl | rfl | rfl | rfl | rfl | rfl <;>
            first | rfl | exact absurd hname (by simp)
        rw [if_pos hname, hrecord]
        exact ModelRecord.refusal_encode hm.mapsAscend hm.accepted depth
      · rw [if_neg hname]

/-! ## Files -/

/-- Whether a model can be read from a file: its doubles are finite, and with the objects around it
its record is nested no deeper than the reader goes. -/
structure Model.Readable (m : Model) : Prop where
  finite : ∀ x ∈ m.doubles, x.isFinite = true
  shallow : m.record.record.depth + 2 ≤ Json.deepest

namespace ModelFile

variable {m : Model} {now : Occasion}

@[simp] theorem isWritten_encode (f : ModelFile) : f.encode.isWritten = true := by
  simp [encode]

/-- A file that was written is not refused. -/
theorem refusal_encode {f : ModelFile} (hm : f.model.Storable) (depth : Nat) :
    refusal depth f.encode = none := by
  cases depth with
  | zero => rfl
  | succ depth =>
      refine Json.refusalAmong_record fun member hmember => ?_
      by_cases hname : member.1 = "model"
      · have hmodel : member.2 = f.model.encode := by
          simp only [List.mem_cons, List.not_mem_nil, or_false] at hmember
          rcases hmember with rfl | rfl | rfl | rfl <;>
            first | rfl | exact absurd hname (by simp)
        rw [if_pos hname, hmodel]
        exact Model.refusal_encode hm depth
      · rw [if_neg hname]

theorem readTime_renderShort {i : Instant} (h : i.IsValid) :
    readTime (.string i.renderShort) = some i := by
  rw [readTime, Json.string?_string, Option.bind_some, Instant.read_renderShort h]

/-- A file is read back exactly if its model is. -/
theorem decode_encode (hm : m.Storable) (htime : now.time.IsValid) (depth : Nat) :
    decode (depth + 5) (ofModel m now).encode =
      if m.doubles.all Float.isFinite && decide (m.record.record.depth ≤ depth + 3) then
        some (ofModel m now)
      else none := by
  have hfields := @Json.fields?_record
    [("format_version", .nat currentVersion),
      ("library_version", .string Retrace.libraryVersion),
      ("saved_at", .string now.time.renderShort),
      ("model", m.encode)] (by simp)
  have hversion : (Json.nat currentVersion).nat? (UInt32.size - 1) = some currentVersion := by
    rw [Json.nat?_nat, if_pos (by decide)]
  simp only [List.map_cons, List.map_nil] at hfields
  rw [decode, encode, ofModel, memberNames, hfields]
  simp only [hversion, Json.string?_string, readTime_renderShort htime, Model.read_encode hm]
  split <;> rfl

/-- What a text is that was written and is not refused, it is by the reader alone. -/
theorem decodeText_renderPretty {β : Type} {reader : Nat → Json → Option β}
    {refusal : Nat → Json → Option ExtractionFault} {j : Json} (hwritten : j.isWritten = true)
    (hrefusal : refusal Json.deepest j = none) :
    decodeText reader refusal (Json.ofContent j.renderPretty.toUTF8) =
      match reader Json.deepest j with
      | some b => .ok b
      | none => .error .unreadable := by
  simp only [decodeText, Json.parse_renderPretty hwritten, hrefusal]
  cases reader Json.deepest j <;> rfl

/-- What loading a file that was saved comes to: the model with the time of saving if it can be read
from a file, and otherwise an error. -/
theorem load_save {directory files : Directory} {path : OsPath} (hm : m.Storable)
    (htime : now.time.IsValid) (h : save directory path m now = .ok files) :
    (m.Readable → load files path = .ok (ofModel m now)) ∧
      (¬m.Readable → load files path = .error (.format .unreadable)) := by
  have hread : files.read path = .ok (ofModel m now).encode.renderPretty.toUTF8 := by
    rw [save] at h
    split at h
    · simp at h
    · rename_i written hwrite
      rw [← Except.ok.inj h]
      exact Directory.read_write hwrite
  have htext := @decodeText_renderPretty _ decode refusal _ (isWritten_encode (ofModel m now))
    (refusal_encode hm Json.deepest)
  have hdeepest : Json.deepest = 122 + 5 := rfl
  rw [load, hread]
  simp only [ofContent, htext, hdeepest, decode_encode hm htime]
  constructor
  · intro hreadable
    have hdepth : m.record.record.depth ≤ 122 + 3 := Nat.le_of_add_le_add_right hreadable.shallow
    rw [if_pos (by simpa using ⟨hreadable.finite, hdepth⟩)]
    rfl
  · intro hunreadable
    have hunfit : ¬(m.doubles.all Float.isFinite &&
        decide (m.record.record.depth ≤ 122 + 3)) = true := by
      intro hfits
      simp only [Bool.and_eq_true, List.all_eq_true, decide_eq_true_eq] at hfits
      exact hunreadable ⟨hfits.1, Nat.add_le_add_right hfits.2 2⟩
    rw [if_neg hunfit]
    rfl

end ModelFile
end Retrace
