import Retrace.Text.Fields
import Retrace.Text.Quoted

/-!
# Paths

The system knows a path as bytes.  Most paths are texts, but any bytes may stand in one.  A record
holds texts only: a path that is none is recorded with a sign in the place of what is no character,
and the path that is recorded is another one.

Main results:

- Theorem `lossy_ofText`: the path of a text is recorded as this text.
- Theorem `ofText_lossy_eq_iff`: what is recorded of a path leads back to it exactly if the path is
  a text.
-/

namespace Retrace

/-- A path as the system knows it. -/
@[ext] structure OsPath where
  bytes : ByteArray

/-- Paths are the same if their bytes are. -/
instance : DecidableEq OsPath := fun a b =>
  -- by name, since byte arrays may be compared by more than one instance
  @decidable_of_iff _ (a.bytes = b.bytes) OsPath.ext_iff.symm (ByteArray.instDecidableEq ..)

/-- A piece of what should be a text. -/
inductive Piece where
  | char (c : Char)
  /-- bytes that are no character -/
  | broken (bytes : List UInt8)
deriving DecidableEq, Repr

/-- A character of which some bytes are there and some are missing. -/
structure Pending where
  /-- the bytes that are there -/
  bytes : List UInt8
  /-- the part of the code point that they say -/
  code : Nat
  missing : Nat
  /-- the least byte that can come next -/
  low : UInt8
  /-- the greatest byte that can come next -/
  high : UInt8
deriving DecidableEq, Repr

namespace OsPath

/-- The path that is a text. -/
def ofText (text : String) : OsPath :=
  ⟨text.toUTF8⟩

/-- The text that a path is, if it is one. -/
def text? (p : OsPath) : Option String :=
  String.fromUTF8? p.bytes

/-- Whether a path is a text. -/
def IsText (p : OsPath) : Prop :=
  p.text?.isSome = true

instance (p : OsPath) : Decidable p.IsText :=
  inferInstanceAs (Decidable (p.text?.isSome = true))

/-! ## Pieces -/

/-- What a byte gives between characters.  The shortest form of a character is the only one, the
halves of a surrogate pair are no characters, and no code point is above the last one. -/
def enter (b : UInt8) : List Piece × Option Pending :=
  if b < 0x80 then ([.char (Char.ofNat b.toNat)], none)
  else if 0xC2 ≤ b ∧ b ≤ 0xDF then ([], some ⟨[b], b.toNat - 0xC0, 1, 0x80, 0xBF⟩)
  else if 0xE0 ≤ b ∧ b ≤ 0xEF then
    ([], some ⟨[b], b.toNat - 0xE0, 2, if b = 0xE0 then 0xA0 else 0x80,
      if b = 0xED then 0x9F else 0xBF⟩)
  else if 0xF0 ≤ b ∧ b ≤ 0xF4 then
    ([], some ⟨[b], b.toNat - 0xF0, 3, if b = 0xF0 then 0x90 else 0x80,
      if b = 0xF4 then 0x8F else 0xBF⟩)
  else ([.broken [b]], none)

/-- What a byte gives inside a character: more of it, its end, or something new after a piece that
is broken. -/
def proceed (p : Pending) (b : UInt8) : List Piece × Option Pending :=
  if p.low ≤ b ∧ b ≤ p.high then
    let code := p.code * 64 + (b.toNat - 0x80)
    if p.missing = 1 then ([.char (Char.ofNat code)], none)
    else ([], some ⟨p.bytes ++ [b], code, p.missing - 1, 0x80, 0xBF⟩)
  else
    let (found, pending) := enter b
    (.broken p.bytes :: found, pending)

/-- The pieces of bytes that follow a character that may have begun. -/
def piecesFrom : Option Pending → List UInt8 → List Piece
  | none, [] => []
  | some p, [] => [.broken p.bytes]
  | none, b :: rest =>
      let (found, pending) := enter b
      found ++ piecesFrom pending rest
  | some p, b :: rest =>
      let (found, pending) := proceed p b
      found ++ piecesFrom pending rest

/-- The pieces of a path. -/
def pieces (p : OsPath) : List Piece :=
  piecesFrom none p.bytes.toList

/-! ## Texts of paths -/

/-- A piece as it is recorded. -/
def recordedPiece : Piece → Char
  | .char c => c
  | .broken _ => '\uFFFD'

/-- A path as it is recorded: the text that it is, or one with a sign for every broken piece. -/
def lossy (p : OsPath) : String :=
  match p.text? with
  | some text => text
  | none => String.ofList (p.pieces.map recordedPiece)

/-- A byte by its two hexadecimal digits. -/
def quoteByte (b : UInt8) : List Char :=
  ['\\', 'x'] ++ (Nat.toDigits 16 b.toNat).map Char.toUpper

/-- A piece as a quoted path shows it. -/
def quotePiece : Piece → List Char
  | .char c => Text.quoteChar c
  | .broken bytes => bytes.flatMap quoteByte

/-- A path between quotation marks. -/
def quote (p : OsPath) : String :=
  match p.text? with
  | some text => Text.quote text
  | none => String.ofList (['"'] ++ p.pieces.flatMap quotePiece ++ ['"'])

instance : Repr OsPath :=
  ⟨fun p _ => .text p.quote⟩

/-! ## Names -/

/-- The byte between the steps of a path. -/
def slash : UInt8 := 0x2F

/-- The byte before an extension, which also stands for the directory itself. -/
def point : UInt8 := 0x2E

/-- The file name at the end of a path, if the path ends in one. -/
def fileName? (p : OsPath) : Option (List UInt8) :=
  let steps := (Text.fields slash p.bytes.toList).filter fun s => !(s.isEmpty || s = [point])
  match steps.getLast? with
  | some [0x2E, 0x2E] => none
  | name => name

/-- What follows the last point of a file name, unless that point begins the name. -/
def extension? (p : OsPath) : Option OsPath :=
  p.fileName?.bind fun name =>
    match Text.cutAt point name.reverse with
    | some (behind, before) =>
        if before.isEmpty then none else some ⟨behind.reverse.toByteArray⟩
    | none => none

/-! ## Laws -/

/-- The path of a text is this text. -/
@[simp]
theorem text?_ofText (text : String) : (ofText text).text? = some text := by
  have hvalid : text.toUTF8.IsValidUTF8 := text.isValidUTF8
  rw [text?, ofText, String.fromUTF8?, dif_pos hvalid]
  rfl

/-- The path of a text is one. -/
theorem isText_ofText (text : String) : (ofText text).IsText := by
  rw [IsText, text?_ofText]
  rfl

/-- The path of a text is recorded as this text. -/
@[simp]
theorem lossy_ofText (text : String) : (ofText text).lossy = text := by
  rw [lossy, text?_ofText]

/-- A path that is a text is the path of this text. -/
theorem eq_ofText_of_text? {p : OsPath} {text : String} (h : p.text? = some text) :
    p = ofText text := by
  rw [text?, String.fromUTF8?] at h
  split at h
  · rw [← Option.some.inj h]
    rfl
  · simp at h

/-- What is recorded of a path leads back to it exactly if the path is a text. -/
theorem ofText_lossy_eq_iff {p : OsPath} : ofText p.lossy = p ↔ p.IsText := by
  constructor
  · intro h
    rw [← h]
    exact isText_ofText _
  · intro h
    obtain ⟨text, htext⟩ := Option.isSome_iff_exists.1 h
    rw [eq_ofText_of_text? htext, lossy_ofText]

/-- The paths of two texts are the same only for the same text. -/
theorem ofText_inj {s t : String} : ofText s = ofText t ↔ s = t := by
  constructor
  · intro h
    rw [← lossy_ofText s, h, lossy_ofText]
  · rintro rfl
    rfl

/-- A file name with a byte that no text has. -/
def unreadable : OsPath :=
  ⟨⟨#[0x64, 0xFF, 0x2E, 0x63, 0x73, 0x76]⟩⟩

/-- The byte that no text has is recorded by the sign for what is no character. -/
example : unreadable.lossy = "d\uFFFD.csv" ∧ ¬unreadable.IsText := by decide +kernel

end OsPath
end Retrace
