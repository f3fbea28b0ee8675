import Retrace.Decimal.Layout

/-!
# JSON

A JSON value keeps the numbers and the strings as they are written, so a value that is passed over
need not mean anything.  Where a text stops being JSON the value is torn.  Strings are given their
meaning by undoing the escapes; an escape of half a surrogate pair has no meaning.

Main results:

- Theorem `unescape_escape`: what is escaped is read back.
-/

namespace Retrace

/-- A JSON value as it is written. -/
inductive Json where
  | null
  | boolean (value : Bool)
  | number (lexeme : List Char)
  /-- a string, given by what stands between its quotation marks -/
  | text (body : List Char)
  | list (items : List Json)
  | object (members : List (List Char × Json))
  /-- here the text is no JSON -/
  | torn
deriving Repr

namespace Json

/-! ## Strings -/

/-- A hexadecimal digit in lower case. -/
def hexDigit (n : Nat) : Char :=
  Nat.digitChar n

/-- The value of a hexadecimal digit. -/
def hexValue? (c : Char) : Option Nat :=
  if c.isDigit then some (c.toNat - '0'.toNat)
  else if 'a' ≤ c ∧ c ≤ 'f' then some (c.toNat - 'a'.toNat + 10)
  else if 'A' ≤ c ∧ c ≤ 'F' then some (c.toNat - 'A'.toNat + 10)
  else none

/-- The value of four hexadecimal digits. -/
def hexUnit? (a b c d : Char) : Option Nat :=
  match hexValue? a, hexValue? b, hexValue? c, hexValue? d with
  | some a, some b, some c, some d => some (((a * 16 + b) * 16 + c) * 16 + d)
  | _, _, _, _ => none

/-- One character of a string as it is written. -/
def escapeChar (c : Char) : List Char :=
  if c = '"' then ['\\', '"']
  else if c = '\\' then ['\\', '\\']
  else if c = '\x08' then ['\\', 'b']
  else if c = '\x0c' then ['\\', 'f']
  else if c = '\n' then ['\\', 'n']
  else if c = '\r' then ['\\', 'r']
  else if c = '\t' then ['\\', 't']
  else if c.toNat < 32 then ['\\', 'u', '0', '0', hexDigit (c.toNat / 16), hexDigit (c.toNat % 16)]
  else [c]

/-- What stands between the quotation marks of a string. -/
def escape (s : List Char) : List Char :=
  s.flatMap escapeChar

/-- The character that an escape of one letter stands for. -/
def escapedChar? (c : Char) : Option Char :=
  if c = '"' then some '"'
  else if c = '\\' then some '\\'
  else if c = '/' then some '/'
  else if c = 'b' then some '\x08'
  else if c = 'f' then some '\x0c'
  else if c = 'n' then some '\n'
  else if c = 'r' then some '\r'
  else if c = 't' then some '\t'
  else none

/-- Whether a body is that of a string: no control characters, and every escape complete. -/
def isBody : List Char → Bool
  | [] => true
  | '\\' :: 'u' :: a :: b :: c :: d :: rest => (hexUnit? a b c d).isSome && isBody rest
  | '\\' :: c :: rest => (escapedChar? c).isSome && isBody rest
  | c :: rest => c != '\\' && c != '"' && 32 ≤ c.toNat && isBody rest

/-- The text that a body stands for; nothing if a surrogate has no partner. -/
def unescape : List Char → Option (List Char)
  | [] => some []
  | '\\' :: 'u' :: a :: b :: c :: d :: rest =>
      match hexUnit? a b c d with
      | none => none
      | some n =>
          if n < 0xD800 ∨ 0xE000 ≤ n then (unescape rest).map (Char.ofNat n :: ·)
          else if 0xDC00 ≤ n then none
          else
            match rest with
            | '\\' :: 'u' :: e :: f :: g :: h :: rest =>
                match hexUnit? e f g h with
                | none => none
                | some low =>
                    if 0xDC00 ≤ low ∧ low < 0xE000 then
                      (unescape rest).map
                        (Char.ofNat (0x10000 + (n - 0xD800) * 1024 + (low - 0xDC00)) :: ·)
                    else none
            | _ => none
  | '\\' :: c :: rest =>
      match escapedChar? c with
      | some c => (unescape rest).map (c :: ·)
      | none => none
  | c :: rest => if c = '\\' then none else (unescape rest).map (c :: ·)

/-! ## Building values -/

/-- A string. -/
def string (s : String) : Json :=
  .text (escape s.toList)

/-- A natural number. -/
def nat (n : Nat) : Json :=
  .number (Decimal.natDigits n)

/-- An integer. -/
def int (n : Int) : Json :=
  .number (Decimal.intDigits n)

/-- A double; what is not finite is null. -/
def double (x : Float) : Json :=
  if x.isFinite then .number (Decimal.json.chars x) else .null

/-- An object whose members have these keys. -/
def record (members : List (String × Json)) : Json :=
  .object (members.map fun m => (escape m.1.toList, m.2))

/-! ## Laws -/

/-- A control character is read back from its escape. -/
theorem hexUnit?_hexDigit : ∀ n < 32,
    hexUnit? '0' '0' (hexDigit (n / 16)) (hexDigit (n % 16)) = some n := by
  decide

/-- A character is read back from its escape. -/
theorem unescape_escapeChar (c : Char) (rest : List Char) :
    unescape (escapeChar c ++ rest) = (unescape rest).map (c :: ·) := by
  unfold escapeChar
  repeat' split
  all_goals try (rename_i h; subst h; rfl)
  · rename_i h
    simp only [List.cons_append, List.nil_append]
    rw [unescape, hexUnit?_hexDigit c.toNat h]
    have hsmall : c.toNat < 0xD800 ∨ 0xE000 ≤ c.toNat := .inl (by omega)
    simp only [if_pos hsmall, Char.ofNat_toNat]
  · rename_i hquote hslash _ _ _ _ _ _
    simp only [List.cons_append, List.nil_append]
    rw [unescape.eq_def]
    split <;> simp_all

/-- What is escaped is read back. -/
theorem unescape_escape (s : List Char) : unescape (escape s) = some s := by
  induction s with
  | nil => rfl
  | cons c rest ih =>
      have hsplit : escape (c :: rest) = escapeChar c ++ escape rest := by simp [escape]
      rw [hsplit, unescape_escapeChar, ih]
      rfl

end Json
end Retrace
