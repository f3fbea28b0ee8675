import Retrace.Instant.Reading
import Retrace.Proofs.Calendar
import Retrace.Proofs.WholeNumbers

/-!
# Instants are read back

Main results:

- Theorem `read_renderShort`: an instant of the calendar is read from its text.
-/

namespace Retrace
namespace Instant

/-! ## Digits -/

theorem isBlank_of_isDigit {c : Char} (h : c.isDigit = true) : Text.isBlank c = false := by
  simp only [Char.isDigit, Bool.and_eq_true, decide_eq_true_eq] at h
  have hlow : 48 ≤ c.toNat := h.1
  have hhigh : c.toNat ≤ 57 := h.2
  simp only [Text.isBlank, Text.blankRanges, List.any_cons, List.any_nil, Bool.or_false,
    Bool.or_eq_false_iff, Bool.and_eq_false_iff, decide_eq_false_iff_not]
  omega

/-- All digits are cut off if there are not too many of them. -/
theorem cutDigits_of_digits {digits rest : List Char} {most : Nat}
    (hdigits : ∀ c ∈ digits, c.isDigit = true) (hlength : digits.length ≤ most)
    (hrest : ∀ c, rest.head? = some c → c.isDigit = false) :
    cutDigits most (digits ++ rest) = (digits, rest) := by
  induction digits generalizing most with
  | nil =>
      cases most with
      | zero => rfl
      | succ most =>
          cases rest with
          | nil => rfl
          | cons c rest => simp [cutDigits, hrest c rfl]
  | cons c digits ih =>
      rw [List.forall_mem_cons] at hdigits
      obtain ⟨most, rfl⟩ : ∃ n, most = n + 1 := ⟨most - 1, by simp at hlength; omega⟩
      rw [List.cons_append, cutDigits, if_pos hdigits.1,
        ih hdigits.2 (Nat.le_of_succ_le_succ hlength)]

/-- A padded number is made of digits. -/
theorem isDigit_of_mem_padded {width n : Nat} {c : Char} (h : c ∈ padded width n) :
    c.isDigit = true := by
  rcases List.mem_append.1 h with h | h
  · exact Decimal.isDigit_of_mem_zeros h
  · exact Decimal.isDigit_of_mem_natDigits h

/-- The value of a padded number is the number. -/
theorem ofDigits_padded (width n : Nat) : Decimal.ofDigits (padded width n) = n := by
  rw [padded, Decimal.ofDigits_append, Decimal.ofDigits_zeros, Decimal.ofDigits_natDigits,
    Nat.zero_mul, Nat.zero_add]

/-- A number that fits is padded to the width. -/
theorem length_padded {width n : Nat} (hwidth : 0 < width) (h : n < 10 ^ width) :
    (padded width n).length = width := by
  have hlength : (Decimal.natDigits n).length ≤ width :=
    (Nat.length_toDigits_le_iff (by decide) hwidth).2 h
  rw [padded, List.length_append, List.length_replicate]
  omega

/-- A padded number begins with a digit. -/
theorem padded_eq_cons (width n : Nat) :
    ∃ c rest, padded width n = c :: rest ∧ c.isDigit = true := by
  have hne : padded width n ≠ [] := by simp [padded, Nat.toDigits_ne_nil, Decimal.natDigits]
  obtain ⟨c, rest, hcons⟩ := List.exists_cons_of_ne_nil hne
  exact ⟨c, rest, hcons, isDigit_of_mem_padded (hcons ▸ List.mem_cons_self)⟩

/-- No blanks are cut off before a padded number. -/
theorem trimStart_padded (width n : Nat) (rest : List Char) :
    Text.trimStart (padded width n ++ rest) = padded width n ++ rest := by
  obtain ⟨c, more, hcons, hc⟩ := padded_eq_cons width n
  rw [hcons, List.cons_append, Text.trimStart, List.dropWhile_cons_of_neg]
  simp [isBlank_of_isDigit hc]

/-! ## Parts -/

variable {rest : List Char}

/-- A part of two digits is read back. -/
theorem readPart_padded {n : Nat} (h : n < 100)
    (hrest : ∀ c, rest.head? = some c → c.isDigit = false) :
    readPart 2 (padded 2 n ++ rest) = some (n, rest) := by
  have hlength := length_padded (by decide : 0 < 2) h
  obtain ⟨c, more, hcons, -⟩ := padded_eq_cons 2 n
  have hvalue := ofDigits_padded 2 n
  rw [readPart, trimStart_padded, cutDigits_of_digits (fun c => isDigit_of_mem_padded)
    (Nat.le_of_eq hlength) hrest]
  rw [hcons] at hvalue ⊢
  simp only [hvalue]

/-- A separator that is not blank is passed over. -/
theorem skip_self {c : Char} (h : Text.isBlank c = false) : skip c (c :: rest) = some rest := by
  rw [skip, Text.trimStart, List.dropWhile_cons_of_neg (by simp [h])]
  simp

/-- A year is read, with a sign or without. -/
theorem readYear_yearChars (year : Int)
    (hrest : ∀ c, rest.head? = some c → c.isDigit = false) :
    readYear (yearChars year ++ rest) = some (year, rest) := by
  have hsigned : ∀ n : Nat,
      cutDigits (padded 4 n ++ rest).length (padded 4 n ++ rest) = (padded 4 n, rest) := fun n =>
    cutDigits_of_digits (fun c => isDigit_of_mem_padded) (by simp) hrest
  have hvalue := ofDigits_padded 4 year.natAbs
  obtain ⟨c, more, hcons, hc⟩ := padded_eq_cons 4 year.natAbs
  have hcut := hsigned year.natAbs
  rw [yearChars]
  by_cases hnegative : year < 0
  · have hblank : Text.trimStart ('-' :: (padded 4 year.natAbs ++ rest)) =
        '-' :: (padded 4 year.natAbs ++ rest) := rfl
    rw [if_pos hnegative, List.cons_append, readYear, hblank]
    rw [hcons] at hcut hvalue ⊢
    simp only [hcut, hvalue]
    congr 2
    omega
  · rw [if_neg hnegative]
    by_cases hlong : 9999 < year
    · have hblank : Text.trimStart ('+' :: (padded 4 year.natAbs ++ rest)) =
          '+' :: (padded 4 year.natAbs ++ rest) := rfl
      rw [if_pos hlong, List.cons_append, readYear, hblank]
      rw [hcons] at hcut hvalue ⊢
      simp only [hcut, hvalue]
      congr 2
      omega
    · have hlength := @length_padded 4 year.natAbs (by decide) (by omega)
      have hfour :=
        cutDigits_of_digits (fun c => isDigit_of_mem_padded) (Nat.le_of_eq hlength) hrest
      have hsign : c ≠ '-' ∧ c ≠ '+' := by
        constructor <;> rintro rfl <;> exact absurd hc (by decide)
      rw [if_neg hlong, readYear, trimStart_padded]
      rw [hcons] at hfour hvalue ⊢
      rw [List.cons_append] at hfour ⊢
      split
      · rename_i h
        exact absurd (List.cons.inj h).1 hsign.1
      · rename_i h
        exact absurd (List.cons.inj h).1 hsign.2
      · simp only [hfour, hvalue]
        congr 2
        omega

/-- The fraction of a second is read, however many digits it has. -/
theorem readFraction_fractionChars {nanoseconds : Nat} (h : nanoseconds < 1000000000)
    (hrest : ∀ c, rest.head? = some c → c.isDigit = false ∧ c ≠ '.') :
    readFraction (fractionChars nanoseconds ++ rest) = some (nanoseconds, rest) := by
  have hdigits : ∀ width n, 0 < width → width ≤ 9 → n < 10 ^ width →
      readFraction ('.' :: (padded width n ++ rest)) = some (n * 10 ^ (9 - width), rest) := by
    intro width n hpos hle hn
    have hlength := length_padded hpos hn
    have hvalue := ofDigits_padded width n
    have hcut := @cutDigits_of_digits (padded width n) rest 9 (fun c => isDigit_of_mem_padded)
      (by omega) fun c hc => (hrest c hc).1
    obtain ⟨c, more, hcons, -⟩ := padded_eq_cons width n
    have hend : rest.dropWhile Char.isDigit = rest := by
      cases rest with
      | nil => rfl
      | cons c rest => rw [List.dropWhile_cons_of_neg (by simp [(hrest c rfl).1])]
    rw [readFraction, hcut]
    rw [hcons] at hvalue hlength ⊢
    simp only [hvalue, hlength, hend, Nat.pow_eq]
  rw [fractionChars]
  split
  · rename_i hzero
    rw [List.nil_append, hzero, readFraction]
    rintro more rfl
    exact (hrest '.' rfl).2 rfl
  · split
    · have hread := hdigits 3 (nanoseconds / 1000000) (by decide) (by decide) (by omega)
      rw [List.cons_append, hread]
      congr 2
      omega
    · split
      · have hread := hdigits 6 (nanoseconds / 1000) (by decide) (by decide) (by omega)
        rw [List.cons_append, hread]
        congr 2
        omega
      · have hread := hdigits 9 nanoseconds (by decide) (by decide) (by omega)
        rw [List.cons_append, hread]
        congr 2
        omega

/-! ## Instants -/

/-- Whether an instant is one of the calendar. -/
def IsValid (i : Instant) : Prop :=
  ofSeconds? i.seconds i.nanoseconds = some i

/-- A date is read back from its text. -/
theorem readDate_chars (date : Date) (hmonth : date.month < 100) (hday : date.day < 100)
    (hrest : ∀ c, rest.head? = some c → c.isDigit = false) :
    readDate (yearChars date.year ++
      '-' :: (padded 2 date.month ++ '-' :: (padded 2 date.day ++ rest))) = some (date, rest) := by
  have hdash : ∀ (more : List Char) c, ('-' :: more).head? = some c → c.isDigit = false := by
    rintro more c hc
    rw [← Option.some.inj hc]
    rfl
  rw [readDate, readYear_yearChars date.year (hdash _)]
  simp only [Option.bind_eq_bind, Option.bind_some,
    skip_self (by decide : Text.isBlank '-' = false), readPart_padded hmonth (hdash _),
    readPart_padded hday hrest]
  rfl

/-- A fraction does not begin with a digit. -/
theorem isDigit_head?_fraction {nanoseconds : Nat}
    (hrest : ∀ c, rest.head? = some c → c.isDigit = false ∧ c ≠ '.') :
    ∀ c, (fractionChars nanoseconds ++ rest).head? = some c → c.isDigit = false := by
  intro c hc
  rw [fractionChars] at hc
  split at hc
  · exact (hrest c hc).1
  · have hpoint : '.' = c := by
      split at hc
      · exact Option.some.inj hc
      · split at hc <;> exact Option.some.inj hc
    rw [← hpoint]
    rfl

/-- A time of day is read; its sixtieth second is a leap second. -/
theorem readTime_chars {hour minute second nanoseconds : Nat} (hhour : hour ≤ 23)
    (hminute : minute ≤ 59) (hsecond : second ≤ 60) (hnano : nanoseconds < 1000000000)
    (hrest : ∀ c, rest.head? = some c → c.isDigit = false ∧ c ≠ '.') :
    readTime (padded 2 hour ++ ':' :: (padded 2 minute ++ ':' :: (padded 2 second ++
      (fractionChars nanoseconds ++ rest)))) =
        some ((hour * 3600 + minute * 60 + (if second = 60 then 59 else second),
          (if second = 60 then 1000000000 else 0) + nanoseconds), rest) := by
  have hcolon : ∀ (more : List Char) c, (':' :: more).head? = some c → c.isDigit = false := by
    rintro more c hc
    rw [← Option.some.inj hc]
    rfl
  have hrange : (decide (23 < hour) || decide (59 < minute) || decide (60 < second)) = false := by
    simp
    omega
  rw [readTime, readPart_padded (by omega) (hcolon _)]
  simp only [Option.bind_eq_bind, Option.bind_some,
    skip_self (by decide : Text.isBlank ':' = false),
    readPart_padded (by omega : minute < 100) (hcolon _),
    readPart_padded (by omega : second < 100) (isDigit_head?_fraction hrest),
    readFraction_fractionChars hnano hrest, hrange, Bool.false_eq_true, if_false]
  by_cases hleap : second = 60
  · simp only [if_pos hleap]
  · simp only [if_neg hleap]

/-- An instant is one of the calendar if its year is in range and only the last second of a minute
has more nanoseconds than a second. -/
theorem isValid_iff {i : Instant} :
    i.IsValid ↔ yearInRange (Date.ofDays (i.seconds / 86400)).year = true ∧
      (i.nanoseconds < 1000000000 ∨ i.nanoseconds < 2000000000 ∧ i.seconds % 60 = 59) := by
  rw [IsValid, ofSeconds?]
  cases yearInRange (Date.ofDays (i.seconds / 86400)).year
  · simp
  · simp
    omega

/-- The month and the day of a valid date have two digits. -/
theorem bounds_of_isValid {date : Date} (h : date.isValid = true) :
    date.month < 100 ∧ date.day < 100 := by
  simp only [Date.isValid, Bool.and_eq_true, decide_eq_true_eq] at h
  have hdays : daysOfMonth date.year date.month ≤ 31 := by
    unfold daysOfMonth
    repeat' split
    all_goals decide
  omega

/-- An instant of the calendar is read from its text. -/
theorem read_renderShort {i : Instant} (h : i.IsValid) : read i.renderShort.toList = some i := by
  obtain ⟨hyear, hnano⟩ := isValid_iff.1 h
  obtain ⟨date, hdate⟩ : ∃ date, Date.ofDays (i.seconds / 86400) = date := ⟨_, rfl⟩
  obtain ⟨ofDay, hday⟩ : ∃ ofDay, (i.seconds % 86400).toNat = ofDay := ⟨_, rfl⟩
  have hvalid : date.isValid = true := hdate ▸ isValid_ofDays _
  have hdays : date.days = i.seconds / 86400 := hdate ▸ days_ofDays _
  obtain ⟨hmonth, hdayOfMonth⟩ := bounds_of_isValid hvalid
  have htext : i.renderShort.toList = yearChars date.year ++ '-' :: (padded 2 date.month ++ '-' ::
      (padded 2 date.day ++ 'T' :: (padded 2 (ofDay / 3600) ++ ':' :: (padded 2 (ofDay / 60 % 60) ++
        ':' :: (padded 2 (ofDay % 60 + i.nanoseconds / 1000000000) ++
          (fractionChars (i.nanoseconds % 1000000000) ++ ['Z'])))))) := by
    simp only [renderShort, localChars, String.toList_ofList, hdate, hday, List.append_assoc,
      List.cons_append, List.nil_append]
  have hletter : ∀ (more : List Char) c, ('T' :: more).head? = some c → c.isDigit = false := by
    rintro more c hc
    rw [← Option.some.inj hc]
    rfl
  have htime := @readTime_chars ['Z'] (ofDay / 3600) (ofDay / 60 % 60)
    (ofDay % 60 + i.nanoseconds / 1000000000) (i.nanoseconds % 1000000000) (by omega) (by omega)
    (by omega) (by omega) (by simp)
  have hoffset : readOffset (Text.trimStart ['Z']) = some (0, []) := by decide
  rw [hdate] at hyear
  rw [htext, read, readDate_chars date hmonth hdayOfMonth (hletter _)]
  -- only a leap second is written as the sixtieth
  have hsecond : (if ofDay % 60 + i.nanoseconds / 1000000000 = 60 then 59
      else ofDay % 60 + i.nanoseconds / 1000000000) = ofDay % 60 := by
    split <;> omega
  have hextra : (if ofDay % 60 + i.nanoseconds / 1000000000 = 60 then 1000000000 else 0) +
      i.nanoseconds % 1000000000 = i.nanoseconds := by
    split <;> omega
  have hseconds : date.days * 86400 + ((ofDay / 3600 * 3600 + ofDay / 60 % 60 * 60 + ofDay % 60 :
      Nat) : Int) - 0 = i.seconds := by omega
  simp only [Option.bind_eq_bind, Option.bind_some, true_or, or_true, if_true, htime, hoffset,
    hsecond, hextra, hseconds, hvalid, hyear]
  exact h

end Instant
end Retrace
