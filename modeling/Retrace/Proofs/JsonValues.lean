import Retrace.Proofs.Keyed
import Retrace.Proofs.PrintedJson
import Retrace.Proofs.WholeNumbers
import Retrace.Record.Encoding

/-!
# Written values are read

Strings, whole numbers, truth values, lists and objects that are built from values are written as
such, and the readers find in them the values that they were built from.  A list or an object is
read exactly if all that it holds is read.

Main results:

- Theorem `fields?_record`: the members of an object with different keys are found under their keys.
- Theorem `map?_record`: an object whose keys are in order is read as it was written.
- Theorem `each?_map`: a list is read as it was written where all of its items are.
-/

namespace Retrace
namespace Json

/-! ## Strings -/

/-- An escaped character may stand before the body of a text. -/
theorem isBody_escapeChar (c : Char) (rest : List Char) :
    isBody (escapeChar c ++ rest) = isBody rest := by
  unfold escapeChar
  repeat' split
  all_goals try rfl
  · rename_i h
    simp only [List.cons_append, List.nil_append]
    rw [isBody, hexUnit?_hexDigit c.toNat h]
    rfl
  · rename_i hquote hslash _ _ _ _ _ hcontrol
    simp only [List.cons_append, List.nil_append]
    rw [isBody.eq_def]
    split <;> simp_all

/-- What is escaped is the body of a string. -/
theorem isBody_escape (s : List Char) : isBody (escape s) = true := by
  induction s with
  | nil => rfl
  | cons c rest ih =>
      have hsplit : escape (c :: rest) = escapeChar c ++ escape rest := by simp [escape]
      rw [hsplit, isBody_escapeChar, ih]

/-- A text is written by its escapes. -/
@[simp] theorem isWritten_string (s : String) : (string s).isWritten = true :=
  isBody_escape s.toList

/-- A text is read back from its escapes. -/
@[simp] theorem bodyText?_escape (s : String) : bodyText? (escape s.toList) = some s := by
  simp [bodyText?, unescape_escape]

@[simp] theorem isWritten_boolean (b : Bool) : (boolean b).isWritten = true := rfl

/-! ## Numbers -/

/-- The digits of a number are whole. -/
theorem isWhole_natDigits (n : Nat) : isWhole (Decimal.natDigits n) = true := by
  rcases Nat.eq_zero_or_pos n with rfl | hpos
  · rfl
  · have hhead := Decimal.head?_natDigits hpos
    have hne : Decimal.natDigits n ≠ [] := Nat.toDigits_ne_nil
    simp [isWhole, hne, hhead]

/-- Whole digits begin with a digit. -/
theorem exists_of_isWhole {digits : List Char} (h : isWhole digits = true) :
    ∃ c rest, digits = c :: rest := by
  cases digits with
  | nil => exact absurd h (by decide)
  | cons c rest => exact ⟨c, rest, rfl⟩

/-- A sign or not, a whole part, and a tail that does not go on with digits are a number. -/
theorem isNumber_append {digits tail : List Char} (hdigits : ∀ c ∈ digits, c.isDigit = true)
    (hwhole : isWhole digits = true) (htail : isTail tail = true)
    (hstart : ∀ c, tail.head? = some c → c.isDigit = false) (negative : Bool) :
    isNumber ((if negative then ['-'] else []) ++ (digits ++ tail)) = true := by
  have hunsigned : (isWhole ((digits ++ tail).takeWhile Char.isDigit) &&
      isTail ((digits ++ tail).dropWhile Char.isDigit)) = true := by
    rw [Decimal.takeWhile_digits hdigits hstart, Decimal.dropWhile_digits hdigits hstart, hwhole,
      htail, Bool.and_true]
  rw [isNumber_eq]
  cases negative with
  | true => exact hunsigned
  | false =>
      obtain ⟨c, rest, rfl⟩ := exists_of_isWhole hwhole
      have hne : c ≠ '-' := by
        rintro rfl
        exact absurd (hdigits '-' List.mem_cons_self) (by decide)
      have hsign : ((c :: rest ++ tail).head? == some '-') = false := by simp [hne]
      simp only [Bool.false_eq_true, if_false, List.nil_append, hsign]
      exact hunsigned

/-- The digits of a number are a number. -/
theorem isNumber_natDigits (n : Nat) : isNumber (Decimal.natDigits n) = true := by
  have h := isNumber_append (fun c => Decimal.isDigit_of_mem_natDigits) (isWhole_natDigits n)
    (show isTail [] = true from rfl) (by simp) false
  simpa using h

/-- A natural number is written by its digits. -/
@[simp] theorem isWritten_nat (n : Nat) : (nat n).isWritten = true :=
  isNumber_natDigits n

/-- A whole number is written by its sign and digits. -/
@[simp] theorem isWritten_int (n : Int) : (int n).isWritten = true := by
  cases n with
  | ofNat n => exact isNumber_natDigits n
  | negSucc n =>
      have h := isNumber_append (fun c => Decimal.isDigit_of_mem_natDigits)
        (isWhole_natDigits (n + 1)) (show isTail [] = true from rfl) (by simp) true
      rw [List.append_nil] at h
      exact h

/-- A natural number is read exactly if it is within the bound. -/
theorem nat?_nat (n bound : Nat) : (nat n).nat? bound = if n ≤ bound then some n else none := by
  have hdigits : (Decimal.natDigits n).all Char.isDigit = true :=
    List.all_eq_true.2 fun c => Decimal.isDigit_of_mem_natDigits
  simp only [nat, nat?, hdigits, if_true, Decimal.ofDigits_natDigits]

/-- A signed number is read back. -/
theorem long?_int (n : Int64) : (int n.toInt).long? = some n := by
  have hlower : -(2 ^ 63) ≤ n.toInt := n.le_toInt
  have hupper : n.toInt < 2 ^ 63 := n.toInt_lt
  have hback : Int64.ofInt n.toInt = n := Int64.ofInt_toInt n
  cases hn : n.toInt with
  | ofNat m =>
      rw [hn] at hupper hback
      have hdigits : (Decimal.natDigits m).all Char.isDigit = true :=
        List.all_eq_true.2 fun c => Decimal.isDigit_of_mem_natDigits
      have hbound : m < UInt64.size / 2 := by
        simp only [Int.ofNat_eq_natCast] at hupper
        simp only [UInt64.size]
        omega
      rcases Decimal.natDigits_eq_cons m with ⟨c, rest, hcons, -, hminus⟩
      rw [int, Decimal.intDigits, long?]
      · simp only [hdigits, Decimal.ofDigits_natDigits, hbound, decide_true, Bool.and_true, if_true]
        rw [← hback]
        rfl
      · rw [hcons]
        rintro digits hdigits
        exact hminus (List.cons.inj hdigits).1
  | negSucc m =>
      rw [hn] at hlower hback
      have hdigits : (Decimal.natDigits (m + 1)).all Char.isDigit = true :=
        List.all_eq_true.2 fun c => Decimal.isDigit_of_mem_natDigits
      have hbound : m + 1 ≤ UInt64.size / 2 := by
        simp only [UInt64.size]
        omega
      have hzero : Decimal.natDigits (m + 1) ≠ ['0'] := by
        intro h
        have hhead := Decimal.head?_natDigits (Nat.succ_pos m)
        rw [h] at hhead
        exact hhead rfl
      rw [int, Decimal.intDigits, long?]
      simp only [hdigits, Decimal.ofDigits_natDigits, hbound, decide_true, Bool.and_true,
        Bool.true_and, bne_iff_ne, ne_eq, hzero, not_false_eq_true, if_true]
      rw [← hback]
      rfl

/-! ## Lists -/

/-- A list of values is written if each of them is. -/
theorem writtenItems_eq_all (items : List Json) : writtenItems items = items.all isWritten := by
  induction items with
  | nil => rfl
  | cons j rest ih => rw [writtenItems, List.all_cons, ih]

/-- A list is written if each of its values is. -/
@[simp] theorem isWritten_list (items : List Json) :
    (Json.list items).isWritten = items.all isWritten := by
  rw [isWritten, writtenItems_eq_all]

/-- A list whose items are read back under a condition is read back where all of them fulfil it. -/
theorem each?_map {β : Type} {write : β → Json} {reader : Json → Option β} {p : β → Bool}
    {values : List β} (h : ∀ b ∈ values, reader (write b) = if p b then some b else none) :
    each? reader (values.map write) = if values.all p then some values else none := by
  induction values with
  | nil => rfl
  | cons b rest ih =>
      rw [List.forall_mem_cons] at h
      rw [List.map_cons, each?, h.1, ih h.2, List.all_cons]
      cases p b <;> cases rest.all p <;> rfl

/-- Numbers of 64 bits are read back one by one. -/
theorem each?_nat {ns : List Nat} (h : ∀ n ∈ ns, n < UInt64.size) :
    each? (nat? (UInt64.size - 1)) (ns.map nat) = some ns := by
  have hread := @each?_map Nat nat (nat? (UInt64.size - 1)) (fun _ => true) ns fun n hn => by
    rw [nat?_nat, if_pos (Nat.le_sub_one_of_lt (h n hn)), if_pos rfl]
  rw [hread, if_pos (List.all_eq_true.2 fun _ _ => rfl)]

/-- A list is read exactly if each of its items is. -/
theorem isSome_each?_cons {β : Type} (reader : Json → Option β) (j : Json) (rest : List Json) :
    (each? reader (j :: rest)).isSome = ((reader j).isSome && (each? reader rest).isSome) := by
  rw [each?]
  cases reader j <;> cases each? reader rest <;> rfl

/-! ## Objects -/

/-- Members are written if each of their keys and values is. -/
theorem writtenMembers_eq_all (members : List (List Char × Json)) :
    writtenMembers members = members.all fun m => isBody m.1 && m.2.isWritten := by
  induction members with
  | nil => rfl
  | cons m rest ih => rw [writtenMembers, List.all_cons, ih]

/-- A record is written if each of its values is. -/
@[simp] theorem isWritten_record (members : List (String × Json)) :
    (record members).isWritten = members.all fun m => m.2.isWritten := by
  rw [record, isWritten, writtenMembers_eq_all, List.all_map]
  simp [Function.comp_def, isBody_escape]

/-- A text means something at any depth. -/
theorem meaningful_string (s : String) (depth : Nat) : (string s).meaningful depth = true := by
  rw [string, meaningful, unescape_escape]
  rfl

/-- An object means something where there is room for it and all of its members do. -/
theorem meaningful_record (members : List (String × Json)) (depth : Nat) :
    (record members).meaningful (depth + 1) = members.all fun m => m.2.meaningful depth := by
  have hmembers : ∀ members : List (String × Json),
      meaningfulMembers depth (members.map fun m => (escape m.1.toList, m.2)) =
        members.all fun m => m.2.meaningful depth := by
    intro members
    induction members with
    | nil => rfl
    | cons m rest ih =>
        rw [List.map_cons, meaningfulMembers, ih, unescape_escape]
        rfl
  rw [record, meaningful, Nat.add_sub_cancel, hmembers, decide_eq_true (Nat.succ_pos depth),
    Bool.true_and]

/-- Where no key occurs twice, a member is the only one with its key. -/
theorem only?_record {members : List (String × Json)} (hnodup : (members.map Prod.fst).Nodup)
    {m : String × Json} (hm : m ∈ members) :
    only? m.1 (members.map fun m => (escape m.1.toList, m.2)) = some m.2 := by
  have hfilter : members.filter (fun e => e.1 == m.1) = [m] := by
    induction members with
    | nil => simp at hm
    | cons e rest ih =>
        rw [List.map_cons, List.nodup_cons] at hnodup
        rw [List.filter_cons]
        rcases List.mem_cons.1 hm with rfl | hm
        · have hnone : rest.filter (fun e => e.1 == m.1) = [] :=
            List.filter_eq_nil_iff.2 fun e he hkey =>
              hnodup.1 (eq_of_beq hkey ▸ List.mem_map_of_mem he)
          rw [if_pos (beq_self_eq_true m.1), hnone]
        · have hne : ¬(e.1 == m.1) = true := fun hkey =>
            hnodup.1 (eq_of_beq hkey ▸ List.mem_map_of_mem hm)
          rw [if_neg hne, ih hnodup.2 hm]
  have hsame : ((members.map fun e => (escape e.1.toList, e.2)).filter fun e =>
      bodyText? e.1 == some m.1) = [(escape m.1.toList, m.2)] := by
    rw [List.filter_map]
    simp only [Function.comp_def, bodyText?_escape, Option.some_beq_some, hfilter]
    rfl
  rw [only?, hsame]

/-- The members of an object with different keys are found under their keys. -/
theorem fields?_record {members : List (String × Json)} (hnodup : (members.map Prod.fst).Nodup) :
    (record members).fields? (members.map Prod.fst) = some (members.map Prod.snd) := by
  have hfound : ∀ found : List (String × Json), (∀ m ∈ found, m ∈ members) →
      (found.map Prod.fst).mapM (fun name =>
        only? name (members.map fun m => (escape m.1.toList, m.2))) =
          some (found.map Prod.snd) := by
    intro found hsub
    induction found with
    | nil => rfl
    | cons m rest ih =>
        rw [List.forall_mem_cons] at hsub
        rw [List.map_cons, List.mapM_cons, only?_record hnodup hsub.1, ih hsub.2]
        rfl
  rw [fields?, record, members?]
  refine (if_pos ?_).trans (hfound members fun m hm => hm)
  rw [List.all_map]
  refine List.all_eq_true.2 fun m hm => ?_
  have hkey : m.1 ∈ members.map Prod.fst := List.mem_map_of_mem hm
  simp only [Function.comp_def, bodyText?_escape, List.contains_iff_mem.2 hkey, Bool.true_or]

/-- Entries can be read if the first value and the others can. -/
theorem isSome_entries?_cons {β : Type} (reader : Json → Option β) (key : String) (j : Json)
    (rest : List (List Char × Json)) :
    (entries? reader ((escape key.toList, j) :: rest)).isSome =
      ((reader j).isSome && (entries? reader rest).isSome) := by
  rw [entries?, bodyText?_escape]
  cases reader j <;> cases entries? reader rest <;> rfl

/-- An object whose keys are in order is read as it was written. -/
theorem map?_record {β : Type} {write : β → Json} {reader : Json → Option β}
    {entries : List (String × β)} (hascending : Keyed.Ascending entries)
    (h : ∀ e ∈ entries, reader (write e.2) = some e.2) :
    (record (entries.map fun e => (e.1, write e.2))).map? reader = some entries := by
  have hentries : entries? reader ((entries.map fun e => (e.1, write e.2)).map fun m =>
      (escape m.1.toList, m.2)) = some entries := by
    clear hascending
    induction entries with
    | nil => rfl
    | cons e rest ih =>
        rw [List.forall_mem_cons] at h
        rw [List.map_cons, List.map_cons, entries?, ih h.2]
        simp only [bodyText?_escape, h.1]
  rw [record, map?, hentries, Option.map_some, Keyed.ofList_of_ascending hascending]

end Json
end Retrace
