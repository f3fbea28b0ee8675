import Retrace.Json.Parsing
import Retrace.Json.Printing

/-!
# Printed JSON is parsed

A value whose numbers and strings are written as such is printed over several lines and parsed back
to itself.  In between stand its tokens: printing and cutting gives exactly the tokens of the value,
whatever follows, and putting these together gives the value.

Main results:

- Theorem `tokensFrom_pretty`: the tokens of a printed value.
- Theorem `valueFrom_tokensOf`: the value of its tokens.
- Theorem `parse_pretty`: a printed value is parsed back.
-/

namespace Retrace
namespace Json

/-! ## Written values -/

mutual

/-- Whether the numbers and strings of a value are written as such and no place of it is torn. -/
def isWritten : Json → Bool
  | .number lexeme => isNumber lexeme
  | .text body => isBody body
  | .list items => writtenItems items
  | .object members => writtenMembers members
  | .torn => false
  | _ => true

/-- Whether all items are written values. -/
def writtenItems : List Json → Bool
  | [] => true
  | j :: rest => j.isWritten && writtenItems rest

/-- Whether all members are written values under written keys. -/
def writtenMembers : List (List Char × Json) → Bool
  | [] => true
  | (key, j) :: rest => isBody key && j.isWritten && writtenMembers rest

end

mutual

/-- The tokens of a value. -/
def tokensOf : Json → List Token
  | .null => [.plain .null]
  | .boolean b => [.plain (.boolean b)]
  | .number lexeme => [.plain (.number lexeme)]
  | .text body => [.text body]
  | .list [] => [.openList, .closeList]
  | .list (j :: rest) => .openList :: (j.tokensOf ++ itemTokens rest)
  | .object [] => [.openObject, .closeObject]
  | .object ((key, j) :: rest) =>
      .openObject :: .text key :: .colon :: (j.tokensOf ++ memberTokens rest)
  | .torn => []

/-- The tokens of the items after the first one, with the end of the list. -/
def itemTokens : List Json → List Token
  | [] => [.closeList]
  | j :: rest => .comma :: (j.tokensOf ++ itemTokens rest)

/-- The tokens of the members after the first one, with the end of the object. -/
def memberTokens : List (List Char × Json) → List Token
  | [] => [.closeObject]
  | (key, j) :: rest => .comma :: .text key :: .colon :: (j.tokensOf ++ memberTokens rest)

end

/-! ## Numbers -/

/-- Whether a character may stand in a number. -/
def isNumeric (c : Char) : Bool :=
  c.isDigit || c = '-' || c = '+' || c = '.' || c = 'e' || c = 'E'

theorem isNumeric_of_isDigit {c : Char} (h : c.isDigit = true) : isNumeric c = true := by
  simp [isNumeric, h]

/-- What stands before the rest of a number is made of digits. -/
theorem forall_isNumeric_of_dropWhile {s : List Char}
    (h : ∀ c ∈ s.dropWhile Char.isDigit, isNumeric c = true) : ∀ c ∈ s, isNumeric c = true := by
  intro c hc
  rw [← List.takeWhile_append_dropWhile (p := Char.isDigit) (l := s), List.mem_append] at hc
  rcases hc with hc | hc
  · exact isNumeric_of_isDigit (List.all_eq_true.1 List.all_takeWhile c hc)
  · exact h c hc

/-- A first character and the others make the whole. -/
theorem forall_isNumeric_of_drop {s : List Char} {first : Char} (hs : s.head? = some first)
    (hfirst : isNumeric first = true) (h : ∀ c ∈ s.drop 1, isNumeric c = true) :
    ∀ c ∈ s, isNumeric c = true := by
  obtain ⟨rest, rfl⟩ := List.head?_eq_some_iff.1 hs
  exact List.forall_mem_cons.2 ⟨hfirst, h⟩

/-- Whether a text is a power of ten as it follows the digits of a number. -/
def isPower : List Char → Bool
  | [] => true
  | c :: power =>
      let digits :=
        if power.head? == some '+' || power.head? == some '-' then power.drop 1 else power
      (c = 'e' || c = 'E') && !digits.isEmpty && digits.all Char.isDigit

/-- A power is made of characters of numbers. -/
theorem isNumeric_of_isPower {s : List Char} (h : isPower s = true) :
    ∀ c ∈ s, isNumeric c = true := by
  cases s with
  | nil => simp
  | cons e power =>
      simp only [isPower, Bool.and_eq_true, Bool.or_eq_true, decide_eq_true_eq] at h
      obtain ⟨⟨he, -⟩, hdigits⟩ := h
      refine List.forall_mem_cons.2 ⟨by rcases he with rfl | rfl <;> rfl, ?_⟩
      split at hdigits
      · rename_i hsign
        have hnumeric := fun c hc => isNumeric_of_isDigit (List.all_eq_true.1 hdigits c hc)
        rcases hsign with hsign | hsign
        · exact forall_isNumeric_of_drop (eq_of_beq hsign) rfl hnumeric
        · exact forall_isNumeric_of_drop (eq_of_beq hsign) rfl hnumeric
      · exact fun c hc => isNumeric_of_isDigit (List.all_eq_true.1 hdigits c hc)

/-- What follows the digits before the point: a fraction or not, and a power of ten or not. -/
def isTail (s : List Char) : Bool :=
  if s.head? == some '.' then
    !((s.drop 1).takeWhile Char.isDigit).isEmpty && isPower ((s.drop 1).dropWhile Char.isDigit)
  else isPower s

theorem isNumeric_of_isTail {s : List Char} (h : isTail s = true) :
    ∀ c ∈ s, isNumeric c = true := by
  rw [isTail] at h
  split at h
  · rename_i hpoint
    rw [Bool.and_eq_true] at h
    exact forall_isNumeric_of_drop (eq_of_beq hpoint) rfl
      (forall_isNumeric_of_dropWhile (isNumeric_of_isPower h.2))
  · exact isNumeric_of_isPower h

/-- Whether digits stand before the point of a number: some, and no needless zero. -/
def isWhole (digits : List Char) : Bool :=
  digits == ['0'] || (!digits.isEmpty && digits.head? != some '0')

/-- A number without its sign is a whole part and what follows it. -/
theorem isNumber_eq (s : List Char) :
    isNumber s =
      let unsigned := if s.head? == some '-' then s.drop 1 else s
      isWhole (unsigned.takeWhile Char.isDigit) && isTail (unsigned.dropWhile Char.isDigit) := by
  rw [isNumber]
  simp only
  generalize (if (s.head? == some '-') = true then s.drop 1 else s) = unsigned
  generalize unsigned.dropWhile Char.isDigit = rest
  rw [isTail, isWhole]
  by_cases hpoint : (rest.head? == some '.') = true
  · have hne : (rest.head? != some '.') = false := by simp [bne, hpoint]
    simp only [hpoint, hne, if_true, Bool.false_or]
    rw [Bool.and_assoc]
    cases (rest.drop 1).dropWhile Char.isDigit <;> rfl
  · have hne : (rest.head? != some '.') = true := by simp [bne, hpoint]
    simp only [hpoint, hne, if_false, Bool.true_or, Bool.and_true, Bool.false_eq_true]
    cases rest <;> rfl

theorem isNumeric_of_isNumber {s : List Char} (h : isNumber s = true) :
    ∀ c ∈ s, isNumeric c = true := by
  rw [isNumber_eq] at h
  simp only [Bool.and_eq_true] at h
  have hunsigned := forall_isNumeric_of_dropWhile (isNumeric_of_isTail h.2)
  split at hunsigned
  · rename_i hsign
    exact forall_isNumeric_of_drop (eq_of_beq hsign) rfl hunsigned
  · exact hunsigned

/-! ## Cutting into tokens -/

/-- Whether a text ends whatever run of characters stands before it. -/
def EndsRun (s : List Char) : Prop :=
  ∀ c, s.head? = some c → isSpace c = true ∨ c = '"' ∨ (mark? c).isSome = true

/-- Whether a character goes on with a run of characters. -/
def inRun (c : Char) : Bool :=
  !isSpace c && c != '"' && (mark? c).isNone

theorem inRun_of_isNumeric {c : Char} (h : isNumeric c = true) : inRun c = true := by
  have hne : ∀ d, isNumeric d = false → c ≠ d := by
    rintro d hd rfl
    simp [h] at hd
  simp [inRun, isSpace, mark?, hne ' ' rfl, hne '\n' rfl, hne '\r' rfl, hne '\t' rfl, hne '"' rfl,
    hne '[' rfl, hne ']' rfl, hne '\x7b' rfl, hne '\x7d' rfl, hne ',' rfl, hne ':' rfl]

/-- A run has neither blanks nor quotes nor marks. -/
theorem inRun_iff {c : Char} :
    inRun c = true ↔ isSpace c = false ∧ c ≠ '"' ∧ mark? c = none := by
  simp [inRun, and_assoc]

theorem tokensFrom_bare_of_endsRun {s : List Char} (h : EndsRun s) (seen : List Char) :
    tokensFrom (.bare seen) s = bareToken seen.reverse :: tokensFrom .between s := by
  cases s with
  | nil => rfl
  | cons c rest =>
      rw [tokensFrom, tokensFrom]
      rcases h c rfl with hspace | rfl | hmark
      · rw [if_pos hspace, if_pos hspace]
      · rfl
      · split
        · rfl
        · split
          · rfl
          · obtain ⟨t, ht⟩ := Option.isSome_iff_exists.1 hmark
            rw [ht]

theorem tokensFrom_bare_append {run : List Char} (hrun : ∀ c ∈ run, inRun c = true)
    (seen s : List Char) :
    tokensFrom (.bare seen) (run ++ s) = tokensFrom (.bare (run.reverse ++ seen)) s := by
  induction run generalizing seen with
  | nil => rfl
  | cons c rest ih =>
      rw [List.forall_mem_cons] at hrun
      obtain ⟨hspace, hquote, hmark⟩ := inRun_iff.1 hrun.1
      rw [List.cons_append, tokensFrom, hspace, if_neg Bool.false_ne_true, if_neg hquote, hmark]
      simp only
      rw [ih hrun.2, List.reverse_cons, List.append_assoc, List.singleton_append]

/-- A run of characters is one token. -/
theorem tokensFrom_run {run : List Char} (hne : run ≠ []) (hrun : ∀ c ∈ run, inRun c = true)
    {s : List Char} (h : EndsRun s) :
    tokensFrom .between (run ++ s) = bareToken run :: tokensFrom .between s := by
  obtain ⟨c, rest, rfl⟩ := List.exists_cons_of_ne_nil hne
  rw [List.forall_mem_cons] at hrun
  obtain ⟨hspace, hquote, hmark⟩ := inRun_iff.1 hrun.1
  rw [List.cons_append, tokensFrom, hspace, if_neg Bool.false_ne_true, if_neg hquote, hmark]
  simp only
  rw [tokensFrom_bare_append hrun.2, tokensFrom_bare_of_endsRun h]
  simp

/-- Line feeds and indentation give no token. -/
theorem tokensFrom_newLine (level : Nat) (s : List Char) :
    tokensFrom .between (newLine level ++ s) = tokensFrom .between s := by
  have hspaces : ∀ n, tokensFrom .between (List.replicate n ' ' ++ s) = tokensFrom .between s := by
    intro n
    induction n with
    | zero => rfl
    | succ n ih => exact ih
  exact hspaces (2 * level)

/-- Hexadecimal digits are neither quotes nor backslashes. -/
theorem isPlain_of_hexUnit? {a b c d : Char} (h : (hexUnit? a b c d).isSome = true) :
    ∀ x ∈ [a, b, c, d], x ≠ '"' ∧ x ≠ '\\' := by
  have hdigit : ∀ x, (hexValue? x).isSome = true → x ≠ '"' ∧ x ≠ '\\' := by
    intro x hx
    constructor
    · rintro rfl
      exact absurd hx (by decide)
    · rintro rfl
      exact absurd hx (by decide)
  rw [hexUnit?] at h
  split at h
  · rename_i ha hb hc hd
    simp only [List.forall_mem_cons]
    exact ⟨hdigit a (by simp [ha]), hdigit b (by simp [hb]), hdigit c (by simp [hc]),
      hdigit d (by simp [hd]), by simp⟩
  · simp at h

/-- Plain characters of a text are gathered. -/
theorem tokensFrom_quoted_plain {run : List Char} (h : ∀ c ∈ run, c ≠ '"' ∧ c ≠ '\\')
    (seen s : List Char) :
    tokensFrom (.quoted seen false) (run ++ s) =
      tokensFrom (.quoted (run.reverse ++ seen) false) s := by
  induction run generalizing seen with
  | nil => rfl
  | cons c rest ih =>
      rw [List.forall_mem_cons] at h
      rw [List.cons_append, tokensFrom, if_neg Bool.false_ne_true, if_neg h.1.1,
        decide_eq_false h.1.2, ih h.2, List.reverse_cons, List.append_assoc,
        List.singleton_append]

/-- A backslash is gathered with the character behind it. -/
theorem tokensFrom_quoted_escape (c : Char) (seen s : List Char) :
    tokensFrom (.quoted seen false) ('\\' :: c :: s) =
      tokensFrom (.quoted (c :: '\\' :: seen) false) s := rfl

/-- Nothing inside a body ends the string. -/
theorem tokensFrom_quoted_body {body : List Char} (h : isBody body = true) (seen s : List Char) :
    tokensFrom (.quoted seen false) (body ++ s) =
      tokensFrom (.quoted (body.reverse ++ seen) false) s := by
  induction body using isBody.induct generalizing seen with
  | case1 => rfl
  | case2 a b c d rest ih =>
      rw [isBody, Bool.and_eq_true] at h
      have hplain := tokensFrom_quoted_plain (isPlain_of_hexUnit? h.1) ('u' :: '\\' :: seen)
        (rest ++ s)
      have hrest := ih h.2 ([d, c, b, a] ++ ('u' :: '\\' :: seen))
      simp only [List.cons_append, List.nil_append, List.reverse_cons, List.reverse_nil,
        List.append_assoc] at hplain hrest ⊢
      rw [tokensFrom_quoted_escape, hplain, hrest]
  | case3 c rest hne ih =>
      rw [isBody, Bool.and_eq_true] at h
      · rw [List.cons_append, List.cons_append, tokensFrom_quoted_escape, ih h.2]
        simp
      · exact hne
  | case4 c rest hne hne' ih =>
      rw [isBody] at h
      · simp only [Bool.and_eq_true, bne_iff_ne] at h
        rw [List.cons_append, tokensFrom, if_neg Bool.false_ne_true, if_neg h.1.1.2,
          decide_eq_false h.1.1.1, ih h.2]
        simp
      · exact hne
      · exact hne'

/-- A body between quotation marks is one token. -/
theorem tokensFrom_quoted {body : List Char} (h : isBody body = true) (s : List Char) :
    tokensFrom .between (quoted body ++ s) = .text body :: tokensFrom .between s := by
  have hopen : tokensFrom .between (quoted body ++ s) =
      tokensFrom (.quoted [] false) (body ++ ('"' :: s)) := by
    rw [quoted, List.append_assoc]
    rfl
  rw [hopen, tokensFrom_quoted_body h, tokensFrom]
  simp [h]

theorem tokensFrom_mark {c : Char} {t : Token} (hspace : isSpace c = false) (hquote : c ≠ '"')
    (hmark : mark? c = some t) (s : List Char) :
    tokensFrom .between (c :: s) = t :: tokensFrom .between s := by
  rw [tokensFrom, hspace, if_neg Bool.false_ne_true, if_neg hquote, hmark]

/-- A character that does not stand in runs ends them. -/
theorem endsRun_cons {c : Char} (h : inRun c = false) (s : List Char) : EndsRun (c :: s) := by
  intro d hd
  obtain rfl : c = d := Option.some.inj hd
  by_cases hspace : isSpace c = true
  · exact .inl hspace
  · by_cases hquote : c = '"'
    · exact .inr (.inl hquote)
    · exact .inr (.inr (by simpa [inRun, hspace, hquote, Option.isSome_iff_ne_none] using h))

theorem endsRun_prettyItems (level : Nat) (items : List Json) (s : List Char) :
    EndsRun (prettyItems level items ++ s) := by
  cases items with
  | nil => exact endsRun_cons rfl _
  | cons j rest => exact endsRun_cons rfl _

/-- Behind a value of a record a run ends. -/
theorem endsRun_prettyMembers (level : Nat) (members : List (List Char × Json)) (s : List Char) :
    EndsRun (prettyMembers level members ++ s) := by
  cases members with
  | nil => exact endsRun_cons rfl _
  | cons m rest => exact endsRun_cons rfl _

/-- A number is a token as it is written. -/
theorem bareToken_of_isNumber {lexeme : List Char} (h : isNumber lexeme = true) :
    bareToken lexeme = .plain (.number lexeme) := by
  rw [bareToken, if_neg, if_neg, if_neg, if_pos h]
  all_goals
    rintro rfl
    exact absurd h (by decide)

theorem ne_nil_of_isNumber {lexeme : List Char} (h : isNumber lexeme = true) : lexeme ≠ [] := by
  rintro rfl
  exact absurd h (by decide)

mutual

/-- A printed value is cut into its tokens, whatever follows. -/
theorem tokensFrom_pretty : ∀ (j : Json) (level : Nat) (s : List Char), j.isWritten = true →
    EndsRun s → tokensFrom .between (j.pretty level ++ s) = j.tokensOf ++ tokensFrom .between s
  | .null, level, s, _, hs =>
      @tokensFrom_run "null".toList (by decide) (List.all_eq_true.1 rfl) s hs
  | .boolean true, level, s, _, hs =>
      @tokensFrom_run "true".toList (by decide) (List.all_eq_true.1 rfl) s hs
  | .boolean false, level, s, _, hs =>
      @tokensFrom_run "false".toList (by decide) (List.all_eq_true.1 rfl) s hs
  | .number lexeme, level, s, h, hs => by
      have hrun := fun c hc => inRun_of_isNumeric (isNumeric_of_isNumber h c hc)
      rw [pretty, tokensFrom_run (ne_nil_of_isNumber h) hrun hs, bareToken_of_isNumber h]
      rfl
  | .text body, level, s, h, _ => tokensFrom_quoted h s
  | .list [], level, s, _, _ => rfl
  | .list (j :: rest), level, s, h, _ => by
      rw [isWritten, writtenItems, Bool.and_eq_true] at h
      have hfirst := tokensFrom_pretty j (level + 1) (prettyItems level rest ++ s) h.1
        (endsRun_prettyItems level rest s)
      rw [tokensFrom_prettyItems rest level s h.2] at hfirst
      rw [pretty, tokensOf]
      simp only [List.cons_append, List.append_assoc]
      rw [tokensFrom_mark rfl (by decide) rfl, tokensFrom_newLine, hfirst]
  | .object [], level, s, _, _ => rfl
  | .object ((key, j) :: rest), level, s, h, _ => by
      rw [isWritten, writtenMembers, Bool.and_eq_true, Bool.and_eq_true] at h
      have hfirst := tokensFrom_pretty j (level + 1) (prettyMembers level rest ++ s) h.1.2
        (endsRun_prettyMembers level rest s)
      rw [tokensFrom_prettyMembers rest level s h.2] at hfirst
      rw [pretty, tokensOf]
      simp only [List.cons_append, List.append_assoc]
      rw [tokensFrom_mark rfl (by decide) rfl, tokensFrom_newLine, tokensFrom_quoted h.1.1,
        tokensFrom_mark rfl (by decide) rfl]
      exact congrArg _ (congrArg _ (congrArg _ hfirst))
  | .torn, level, s, h, _ => by simp [isWritten] at h

/-- Printed items after the first one are cut into their tokens. -/
theorem tokensFrom_prettyItems : ∀ (items : List Json) (level : Nat) (s : List Char),
    writtenItems items = true → tokensFrom .between (prettyItems level items ++ s) =
      itemTokens items ++ tokensFrom .between s
  | [], level, s, _ => by
      rw [prettyItems, List.append_assoc, tokensFrom_newLine]
      rfl
  | j :: rest, level, s, h => by
      rw [writtenItems, Bool.and_eq_true] at h
      have hfirst := tokensFrom_pretty j (level + 1) (prettyItems level rest ++ s) h.1
        (endsRun_prettyItems level rest s)
      rw [tokensFrom_prettyItems rest level s h.2] at hfirst
      rw [prettyItems, itemTokens]
      simp only [List.cons_append, List.append_assoc]
      rw [tokensFrom_mark rfl (by decide) rfl, tokensFrom_newLine, hfirst]

/-- Printed members after the first one are cut into their tokens. -/
theorem tokensFrom_prettyMembers : ∀ (members : List (List Char × Json)) (level : Nat)
    (s : List Char), writtenMembers members = true →
      tokensFrom .between (prettyMembers level members ++ s) =
        memberTokens members ++ tokensFrom .between s
  | [], level, s, _ => by
      rw [prettyMembers, List.append_assoc, tokensFrom_newLine]
      rfl
  | (key, j) :: rest, level, s, h => by
      rw [writtenMembers, Bool.and_eq_true, Bool.and_eq_true] at h
      have hfirst := tokensFrom_pretty j (level + 1) (prettyMembers level rest ++ s) h.1.2
        (endsRun_prettyMembers level rest s)
      rw [tokensFrom_prettyMembers rest level s h.2] at hfirst
      rw [prettyMembers, memberTokens]
      simp only [List.cons_append, List.append_assoc]
      rw [tokensFrom_mark rfl (by decide) rfl, tokensFrom_newLine, tokensFrom_quoted h.1.1,
        tokensFrom_mark rfl (by decide) rfl]
      exact congrArg _ (congrArg _ (congrArg _ hfirst))

end

/-! ## Putting together -/

/-- The tokens of a value begin with one that ends no list and no object. -/
theorem exists_tokensOf_eq_cons {j : Json} (h : j.isWritten = true) :
    ∃ t ts, j.tokensOf = t :: ts ∧ t ≠ .closeList ∧ t ≠ .closeObject := by
  cases j with
  | list items => cases items <;> exact ⟨_, _, rfl, by simp, by simp⟩
  | object members => cases members <;> exact ⟨_, _, rfl, by simp, by simp⟩
  | torn => simp [isWritten] at h
  | _ => exact ⟨_, _, rfl, by simp, by simp⟩

mutual

/-- The tokens of a value are put together to the value, whatever follows. -/
theorem valueFrom_tokensOf : ∀ (j : Json) (fuel : Nat) (ts : List Token), j.isWritten = true →
    j.tokensOf.length ≤ fuel → valueFrom fuel (j.tokensOf ++ ts) = (j, ts)
  | j, 0, ts, h, hfuel => by
      obtain ⟨t, more, htokens, -⟩ := exists_tokensOf_eq_cons h
      rw [htokens, List.length_cons] at hfuel
      omega
  | .null, fuel + 1, ts, _, _ => rfl
  | .boolean b, fuel + 1, ts, _, _ => rfl
  | .number lexeme, fuel + 1, ts, _, _ => rfl
  | .text body, fuel + 1, ts, _, _ => rfl
  | .list [], fuel + 1, ts, _, _ => rfl
  | .list (j :: rest), fuel + 1, ts, h, hfuel => by
      rw [isWritten, writtenItems, Bool.and_eq_true] at h
      obtain ⟨t, more, htokens, hclose, -⟩ := exists_tokensOf_eq_cons h.1
      have hitems := itemsFrom_itemTokens j rest fuel ts h.1 h.2
        (by simpa [tokensOf] using hfuel)
      rw [tokensOf, List.cons_append, List.append_assoc]
      rw [htokens, List.cons_append] at hitems ⊢
      rw [valueFrom]
      · rw [hitems]
      · intro other hother
        exact hclose (List.cons.inj hother).1
  | .object [], fuel + 1, ts, _, _ => rfl
  | .object ((key, j) :: rest), fuel + 1, ts, h, hfuel => by
      rw [isWritten] at h
      have hmembers := membersFrom_memberTokens key j rest fuel ts h
        (by simp only [tokensOf, List.length_cons, List.length_append] at hfuel; omega)
      rw [tokensOf, List.cons_append, List.cons_append, List.cons_append, List.append_assoc,
        valueFrom, hmembers]
      simp
  | .torn, fuel + 1, ts, h, _ => by simp [isWritten] at h

/-- The tokens of items are put together to the items. -/
theorem itemsFrom_itemTokens : ∀ (j : Json) (rest : List Json) (fuel : Nat) (ts : List Token),
    j.isWritten = true → writtenItems rest = true →
      j.tokensOf.length + (itemTokens rest).length ≤ fuel →
        itemsFrom fuel (j.tokensOf ++ (itemTokens rest ++ ts)) = (j :: rest, ts)
  | j, rest, 0, ts, h, _, hfuel => by
      obtain ⟨t, more, htokens, -⟩ := exists_tokensOf_eq_cons h
      rw [htokens, List.length_cons] at hfuel
      omega
  | j, [], fuel + 1, ts, h, _, hfuel => by
      rw [itemTokens, List.length_singleton] at hfuel
      rw [itemsFrom, valueFrom_tokensOf j fuel _ h (by omega)]
      rfl
  | j, next :: rest, fuel + 1, ts, h, hrest, hfuel => by
      rw [writtenItems, Bool.and_eq_true] at hrest
      rw [itemTokens, List.length_cons, List.length_append] at hfuel
      rw [itemsFrom, valueFrom_tokensOf j fuel _ h (by omega), itemTokens]
      simp only [List.cons_append, List.append_assoc]
      rw [itemsFrom_itemTokens next rest fuel ts hrest.1 hrest.2 (by omega)]

/-- The tokens of members are put together to the members. -/
theorem membersFrom_memberTokens : ∀ (key : List Char) (j : Json)
    (rest : List (List Char × Json)) (fuel : Nat) (ts : List Token),
      writtenMembers ((key, j) :: rest) = true →
        j.tokensOf.length + (memberTokens rest).length + 2 ≤ fuel →
          membersFrom fuel (.text key :: .colon :: (j.tokensOf ++ (memberTokens rest ++ ts))) =
            ((key, j) :: rest, ts)
  | key, j, rest, 0, ts, h, hfuel => by omega
  | key, j, [], fuel + 1, ts, h, hfuel => by
      rw [writtenMembers, Bool.and_eq_true, Bool.and_eq_true] at h
      rw [memberTokens, List.length_singleton] at hfuel
      rw [membersFrom, valueFrom_tokensOf j fuel _ h.1.2 (by omega)]
      rfl
  | key, j, (other, next) :: rest, fuel + 1, ts, h, hfuel => by
      rw [writtenMembers, Bool.and_eq_true, Bool.and_eq_true] at h
      rw [memberTokens, List.length_cons, List.length_cons, List.length_cons,
        List.length_append] at hfuel
      rw [membersFrom, valueFrom_tokensOf j fuel _ h.1.2 (by omega), memberTokens]
      simp only [List.cons_append, List.append_assoc]
      rw [membersFrom_memberTokens other next rest fuel ts h.2 (by omega)]

end

/-- A printed value is parsed back. -/
theorem parse_pretty {j : Json} (h : j.isWritten = true) : parse (j.pretty 0) = (j, true) := by
  have htokens := tokensFrom_pretty j 0 [] h (by simp [EndsRun])
  rw [List.append_nil] at htokens
  have hvalue := valueFrom_tokensOf j (j.tokensOf.length + 1) [] h (by omega)
  rw [List.append_nil] at hvalue
  rw [parse, tokens, htokens]
  have hend : tokensFrom .between [] = [] := rfl
  simp only [hend, List.append_nil, hvalue]
  rfl

end Json
end Retrace
