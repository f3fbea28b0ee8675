import Retrace.Decimal.Reading
import Retrace.Json.Parsing
import Retrace.Keyed

/-!
# Reading JSON

Values of known types are read from JSON values.  A whole number has neither point nor exponent and
lies within the bounds of its type; negative zero is not a whole number.  A double is any number
that does not overflow.  An object with known members may have others, which are passed over, but
none of the known ones twice; it may also be written as the list of its known members in their
order.  Lists and objects may be nested only so deep, what is passed over aside.

Main results:

- Theorem `length_fields?`: as many fields are found as were asked for.
-/

namespace Retrace
namespace Json

/-- How many lists and objects may stand inside each other. -/
def deepest : Nat := 127

/-- The text that a body stands for. -/
def bodyText? (body : List Char) : Option String :=
  (unescape body).map String.ofList

/-- Read a string. -/
def string? : Json → Option String
  | .text body => bodyText? body
  | _ => none

/-- Read a truth value. -/
def boolean? : Json → Option Bool
  | .boolean b => some b
  | _ => none

/-- Read a natural number of at most `bound`. -/
def nat? (bound : Nat) : Json → Option Nat
  | .number lexeme =>
      if lexeme.all Char.isDigit then
        let n := Decimal.ofDigits lexeme
        if n ≤ bound then some n else none
      else none
  | _ => none

/-- Read an unsigned 64-bit number. -/
def word? (j : Json) : Option UInt64 :=
  (j.nat? (UInt64.size - 1)).map UInt64.ofNat

/-- Read an unsigned 32-bit number. -/
def smallWord? (j : Json) : Option UInt32 :=
  (j.nat? (UInt32.size - 1)).map UInt32.ofNat

/-- Read a signed 64-bit number. -/
def long? : Json → Option Int64
  | .number ('-' :: digits) =>
      if digits.all Char.isDigit && digits != ['0'] &&
          Decimal.ofDigits digits ≤ UInt64.size / 2 then
        some (Int64.ofInt (-(Decimal.ofDigits digits : Int)))
      else none
  | .number digits =>
      if digits.all Char.isDigit && Decimal.ofDigits digits < UInt64.size / 2 then
        some (Int64.ofNat (Decimal.ofDigits digits))
      else none
  | _ => none

/-- Read a double. -/
def double? : Json → Option Float
  | .number lexeme =>
      let (negative, digits) := Decimal.cutSign lexeme
      match Decimal.readNumeral negative digits with
      | some n => if n.toFloat.isFinite then some n.toFloat else none
      | none => none
  | _ => none

/-- Read the items of a list. -/
def list? : Json → Option (List Json)
  | .list items => some items
  | _ => none

/-- Read every item of a list. -/
def each? {β : Type} (reader : Json → Option β) : List Json → Option (List β)
  | [] => some []
  | j :: rest =>
      match reader j, each? reader rest with
      | some b, some bs => some (b :: bs)
      | _, _ => none

/-- Read the members of an object. -/
def entries? {β : Type} (reader : Json → Option β) :
    List (List Char × Json) → Option (List (String × β))
  | [] => some []
  | (key, j) :: rest =>
      match bodyText? key, reader j, entries? reader rest with
      | some key, some b, some more => some ((key, b) :: more)
      | _, _, _ => none

/-- Read an object whose keys are free, in key order; the last member of a key stays. -/
def map? {β : Type} (reader : Json → Option β) : Json → Option (List (String × β))
  | .object members => (entries? reader members).map Keyed.ofList
  | _ => none

/-- The members of an object, or the items of a list under the names in order. -/
def members? (names : List String) : Json → Option (List (List Char × Json))
  | .object members => some members
  | .list items =>
      if items.length = names.length then
        some ((names.map fun n => escape n.toList).zip items)
      else none
  | _ => none

/-- The value of the only member with a name. -/
def only? (name : String) (members : List (List Char × Json)) : Option Json :=
  match members.filter fun m => bodyText? m.1 == some name with
  | [m] => some m.2
  | _ => none

/-- The values under names in their order; other members are passed over. -/
def fields? (names : List String) (j : Json) : Option (List Json) :=
  match j.members? names with
  | none => none
  | some members =>
      let passable := members.all fun m =>
        match bodyText? m.1 with
        | some key => names.contains key || m.2.whole
        | none => false
      if passable then names.mapM fun name => only? name members else none

mutual

/-- Whether a value could be read as such, not nested deeper than `depth`. -/
def meaningful (depth : Nat) : Json → Bool
  | .torn => false
  | .text body => (unescape body).isSome
  | .number lexeme => (double? (.number lexeme)).isSome
  | .list items => 0 < depth && meaningfulItems (depth - 1) items
  | .object members => 0 < depth && meaningfulMembers (depth - 1) members
  | _ => true

/-- Whether values could be read as such. -/
def meaningfulItems (depth : Nat) : List Json → Bool
  | [] => true
  | j :: rest => j.meaningful depth && meaningfulItems depth rest

/-- Whether members could be read as such. -/
def meaningfulMembers (depth : Nat) : List (List Char × Json) → Bool
  | [] => true
  | (key, j) :: rest =>
      (unescape key).isSome && j.meaningful depth && meaningfulMembers depth rest

end

/-! ## Laws -/

/-- As many fields are found as were asked for. -/
theorem length_fields? {names : List String} {j : Json} {values : List Json}
    (h : j.fields? names = some values) : values.length = names.length := by
  unfold fields? at h
  split at h
  · simp at h
  · rename_i members _
    simp only [Option.ite_none_right_eq_some] at h
    have key : ∀ (ns : List String) (vs : List Json),
        ns.mapM (fun name => only? name members) = some vs → vs.length = ns.length := by
      intro ns
      induction ns with
      | nil =>
          intro vs hvs
          simp only [List.mapM_nil, Option.pure_def, Option.some.injEq] at hvs
          simp [← hvs]
      | cons n ns ih =>
          intro vs hvs
          rw [List.mapM_cons] at hvs
          simp only [Option.bind_eq_bind, Option.bind_eq_some_iff, Option.pure_def,
            Option.some.injEq] at hvs
          obtain ⟨v, -, more, hmore, rfl⟩ := hvs
          simp [ih more hmore]
    exact key names values h.2

end Json
end Retrace
