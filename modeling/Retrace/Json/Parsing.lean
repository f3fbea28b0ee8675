import Retrace.Json.Basic
import Retrace.Text.Lines

/-!
# Parsing JSON

A text is cut into tokens and the tokens are put together to a value.  Whatever the text, a value
comes out: it is torn where the text stops being JSON.

The content of a file need not be UTF-8 everywhere: a string that is passed over may hold any bytes
beyond ASCII.  Such bytes are read as an escape without a meaning, which may stand in a string and
nowhere else.

Main results:

- Theorem `ofContent_of_decodeUtf8`: content that is UTF-8 is read as it is.
- Theorem `whole_of_parse`: a text that is JSON has no torn place.
-/

namespace Retrace
namespace Json

/-! ## Content of a file -/

/-- What bytes that are not UTF-8 are read as: half of a surrogate pair, behind a character that
ends any escape before it. -/
def illegible : List Char :=
  ['\uFFFD', '\\', 'u', 'd', 'c', '8', '0']

/-- A run of bytes beyond ASCII. -/
def legibleRun (run : List UInt8) : List Char :=
  (Text.decodeUtf8 ⟨run.toArray⟩).getD illegible

/-- The characters of bytes; `run` holds, reversed, the bytes beyond ASCII that came last. -/
def legibleFrom (run : List UInt8) : List UInt8 → List Char
  | [] => legibleRun run.reverse
  | b :: rest =>
      if b < 128 then legibleRun run.reverse ++ Char.ofNat b.toNat :: legibleFrom [] rest
      else legibleFrom (b :: run) rest

/-- The text of a file's content. -/
def ofContent (content : ByteArray) : List Char :=
  (Text.decodeUtf8 content).getD (legibleFrom [] content.toList)

/-- Content that is UTF-8 is read as it is. -/
theorem ofContent_of_decodeUtf8 {content : ByteArray} {s : List Char}
    (h : Text.decodeUtf8 content = some s) : ofContent content = s := by
  simp [ofContent, h]

/-! ## Tokens -/

/-- A piece of a text. -/
inductive Token where
  | openList
  | closeList
  | openObject
  | closeObject
  | comma
  | colon
  /-- null, a truth value or a number -/
  | plain (value : Json)
  | text (body : List Char)
  /-- here the text is no JSON -/
  | bad
deriving Repr

/-- Whether a character separates tokens. -/
def isSpace (c : Char) : Bool :=
  c = ' ' || c = '\n' || c = '\r' || c = '\t'

/-- The token that a character is by itself. -/
def mark? (c : Char) : Option Token :=
  if c = '[' then some .openList
  else if c = ']' then some .closeList
  else if c = '\x7b' then some .openObject
  else if c = '\x7d' then some .closeObject
  else if c = ',' then some .comma
  else if c = ':' then some .colon
  else none

/-- Whether a text is a number: a sign or not, a whole part without needless zeros, a fraction or
not, a power of ten or not. -/
def isNumber (s : List Char) : Bool :=
  let s := if s.head? == some '-' then s.drop 1 else s
  let whole := s.takeWhile Char.isDigit
  let rest := s.dropWhile Char.isDigit
  let wholeOk := whole == ['0'] || (!whole.isEmpty && whole.head? != some '0')
  let fraction := (rest.drop 1).takeWhile Char.isDigit
  let afterFraction := if rest.head? == some '.' then (rest.drop 1).dropWhile Char.isDigit else rest
  let fractionOk := rest.head? != some '.' || !fraction.isEmpty
  let powerOk :=
    match afterFraction with
    | [] => true
    | c :: power =>
        let digits :=
          if power.head? == some '+' || power.head? == some '-' then power.drop 1 else power
        (c = 'e' || c = 'E') && !digits.isEmpty && digits.all Char.isDigit
  wholeOk && fractionOk && powerOk

/-- The token that a run of characters is. -/
def bareToken (s : List Char) : Token :=
  if s = "null".toList then .plain .null
  else if s = "true".toList then .plain (.boolean true)
  else if s = "false".toList then .plain (.boolean false)
  else if isNumber s then .plain (.number s)
  else .bad

/-- Where the cutting of a text into tokens stands. -/
inductive Mode where
  | between
  /-- inside a run of characters, held reversed -/
  | bare (seen : List Char)
  /-- inside a string, held reversed; whether a backslash came last -/
  | quoted (seen : List Char) (escaped : Bool)

/-- Cut a text into tokens. -/
def tokensFrom : Mode → List Char → List Token
  | .between, [] => []
  | .bare seen, [] => [bareToken seen.reverse]
  | .quoted .., [] => [.bad]
  | .between, c :: rest =>
      if isSpace c then tokensFrom .between rest
      else if c = '"' then tokensFrom (.quoted [] false) rest
      else
        match mark? c with
        | some t => t :: tokensFrom .between rest
        | none => tokensFrom (.bare [c]) rest
  | .bare seen, c :: rest =>
      if isSpace c then bareToken seen.reverse :: tokensFrom .between rest
      else if c = '"' then bareToken seen.reverse :: tokensFrom (.quoted [] false) rest
      else
        match mark? c with
        | some t => bareToken seen.reverse :: t :: tokensFrom .between rest
        | none => tokensFrom (.bare (c :: seen)) rest
  | .quoted seen escaped, c :: rest =>
      if escaped then tokensFrom (.quoted (c :: seen) false) rest
      else if c = '"' then
        (if isBody seen.reverse then .text seen.reverse else .bad) :: tokensFrom .between rest
      else tokensFrom (.quoted (c :: seen) (c = '\\')) rest

/-- The tokens of a text. -/
def tokens (s : List Char) : List Token :=
  tokensFrom .between s

/-! ## Values -/

mutual

/-- Put together a value; the tokens after it, none if it is torn. -/
def valueFrom : Nat → List Token → Json × List Token
  | 0, _ => (.torn, [])
  | fuel + 1, ts =>
      match ts with
      | .plain value :: rest => (value, rest)
      | .text body :: rest => (.text body, rest)
      | .openList :: .closeList :: rest => (.list [], rest)
      | .openList :: rest =>
          let (items, rest) := itemsFrom fuel rest
          (.list items, rest)
      | .openObject :: .closeObject :: rest => (.object [], rest)
      | .openObject :: rest =>
          let (members, rest) := membersFrom fuel rest
          (.object members, rest)
      | _ => (.torn, [])

/-- Put together the items of a list up to its end. -/
def itemsFrom : Nat → List Token → List Json × List Token
  | 0, _ => ([.torn], [])
  | fuel + 1, ts =>
      let (value, rest) := valueFrom fuel ts
      match rest with
      | .comma :: rest =>
          let (items, rest) := itemsFrom fuel rest
          (value :: items, rest)
      | .closeList :: rest => ([value], rest)
      | _ => ([value, .torn], [])

/-- Put together the members of an object up to its end. -/
def membersFrom : Nat → List Token → List (List Char × Json) × List Token
  | 0, _ => ([([], .torn)], [])
  | fuel + 1, ts =>
      match ts with
      | .text key :: .colon :: rest =>
          let (value, rest) := valueFrom fuel rest
          match rest with
          | .comma :: rest =>
              let (members, rest) := membersFrom fuel rest
              ((key, value) :: members, rest)
          | .closeObject :: rest => ([(key, value)], rest)
          | _ => ([(key, value), ([], .torn)], [])
      | _ => ([([], .torn)], [])

end

/-- The value that a text starts with, and whether nothing follows it. -/
def parse (s : List Char) : Json × Bool :=
  let ts := tokens s
  let (value, rest) := valueFrom (ts.length + 1) ts
  (value, rest.isEmpty)

mutual

/-- Whether no place of a value is torn. -/
def whole : Json → Bool
  | .torn => false
  | .list items => wholeItems items
  | .object members => wholeMembers members
  | _ => true

/-- Whether no place of some values is torn. -/
def wholeItems : List Json → Bool
  | [] => true
  | j :: rest => j.whole && wholeItems rest

/-- Whether no place of some members is torn. -/
def wholeMembers : List (List Char × Json) → Bool
  | [] => true
  | (_, j) :: rest => j.whole && wholeMembers rest

end

/-- The value of a text that is JSON. -/
def parse? (s : List Char) : Option Json :=
  let (value, ended) := parse s
  if ended && value.whole then some value else none

/-- A text that is JSON has no torn place. -/
theorem whole_of_parse {s : List Char} {j : Json} (h : parse? s = some j) : j.whole = true := by
  unfold parse? at h
  split at h
  simp only [Option.ite_none_right_eq_some, Bool.and_eq_true, Option.some.injEq] at h
  exact h.2 ▸ h.1.2

end Json
end Retrace
