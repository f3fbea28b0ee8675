import Retrace.Proofs.ShortestDecimals
import Retrace.Proofs.WholeNumbers

/-!
# Doubles are read back

The text of a finite double, in whatever layout, is a sign and a numeral with the value of the
shortest decimal.  So every finite double is read back from its text.

Main results:

- Theorem `readNumeral_positive`: the digits of a decimal are read as the decimal in every layout.
- Theorem `toFloat_chars`: the text of a finite double is a numeral that is read as the double.
-/

namespace Retrace
namespace Decimal

/-! ## Numerals -/

/-- A whole part and a power of ten. -/
theorem readNumeral_whole {whole rest : List Char} {power : Int} (negative : Bool)
    (hne : whole ≠ []) (hwhole : ∀ c ∈ whole, c.isDigit = true)
    (hstart : ∀ c, rest.head? = some c → c.isDigit = false ∧ c ≠ '.')
    (hpower : readPower rest = some power) :
    readNumeral negative (whole ++ rest) = some ⟨negative, ofDigits whole, power⟩ := by
  have hpoint : (rest.head? == some '.') = false := by
    rw [beq_eq_false_iff_ne]
    exact fun h => (hstart '.' h).2 rfl
  rw [readNumeral, takeWhile_digits hwhole fun c hc => (hstart c hc).1,
    dropWhile_digits hwhole fun c hc => (hstart c hc).1]
  simp [hpoint, hne, hpower]

/-- A whole part, a fraction and a power of ten. -/
theorem readNumeral_fraction {whole fraction rest : List Char} {power : Int} (negative : Bool)
    (hne : whole ≠ []) (hwhole : ∀ c ∈ whole, c.isDigit = true)
    (hfraction : ∀ c ∈ fraction, c.isDigit = true)
    (hstart : ∀ c, rest.head? = some c → c.isDigit = false) (hpower : readPower rest = some power) :
    readNumeral negative (whole ++ '.' :: (fraction ++ rest)) =
      some ⟨negative, ofDigits (whole ++ fraction), power - fraction.length⟩ := by
  have hpoint : ∀ c, ('.' :: (fraction ++ rest)).head? = some c → c.isDigit = false := by
    rintro c hc
    rw [← Option.some.inj hc]
    rfl
  rw [readNumeral, takeWhile_digits hwhole hpoint, dropWhile_digits hwhole hpoint]
  simp [hne, takeWhile_digits hfraction hstart, dropWhile_digits hfraction hstart, hpower]

/-! ## Layouts -/

/-- Digits around a point end before it, go on behind it, or begin behind it. -/
theorem Layout.around_cases (l : Layout) {digits : List Char} (hne : digits ≠ [])
    (exponent : Int) :
    (∃ n : Nat, exponent = n ∧ l.around digits exponent =
      digits ++ List.replicate n '0' ++ if l.keepPoint then ['.', '0'] else []) ∨
    (∃ whole fraction, whole ≠ [] ∧ fraction ≠ [] ∧ digits = whole ++ fraction ∧
      exponent = -fraction.length ∧ l.around digits exponent = whole ++ '.' :: fraction) ∨
    ∃ n : Nat, exponent = -(n + digits.length : Int) ∧
      l.around digits exponent = ['0'] ++ '.' :: (List.replicate n '0' ++ digits) := by
  have hlength := List.length_pos_iff.2 hne
  rw [around]
  by_cases hexponent : 0 ≤ exponent
  · rw [if_pos hexponent]
    exact .inl ⟨exponent.toNat, by omega, rfl⟩
  · rw [if_neg hexponent]
    by_cases hbefore : 0 < (digits.length : Int) + exponent
    · obtain ⟨b, hb⟩ := Int.eq_ofNat_of_zero_le hbefore.le
      have hwhole : digits.take b ≠ [] := by
        rw [← List.length_pos_iff, List.length_take]
        omega
      have hfraction : digits.drop b ≠ [] := by
        rw [← List.length_pos_iff, List.length_drop]
        omega
      rw [if_pos hbefore, hb, Int.toNat_natCast, List.append_assoc]
      refine .inr (.inl ⟨digits.take b, digits.drop b, hwhole, hfraction,
        (List.take_append_drop b digits).symm, ?_, rfl⟩)
      rw [List.length_drop]
      omega
    · rw [if_neg hbefore]
      exact .inr (.inr ⟨(-(digits.length + exponent)).toNat, by omega, rfl⟩)

/-- Digits around a point are read as their decimal, zeros before the point being digits of it. -/
theorem readNumeral_around (l : Layout) {digits : List Char} (hne : digits ≠ [])
    (hdigits : ∀ c ∈ digits, c.isDigit = true) (exponent : Int) (negative : Bool) :
    ∃ zeros : Nat, readNumeral negative (l.around digits exponent) =
      some ⟨negative, ofDigits digits * 10 ^ zeros, exponent - zeros⟩ := by
  rcases l.around_cases hne exponent with ⟨n, rfl, htext⟩ |
    ⟨whole, fraction, hwhole, -, rfl, rfl, htext⟩ | ⟨n, rfl, htext⟩
  · have hall : ∀ c ∈ digits ++ List.replicate n '0', c.isDigit = true :=
      List.forall_mem_append.2 ⟨hdigits, fun c => isDigit_of_mem_zeros⟩
    rw [htext]
    cases l.keepPoint with
    | true =>
        refine ⟨n + 1, ?_⟩
        have hread := @readNumeral_fraction (digits ++ List.replicate n '0') ['0'] [] 0 negative
          (by simp [hne]) hall (List.all_eq_true.1 rfl) (by simp) rfl
        rw [ofDigits_append, ofDigits_append, ofDigits_zeros] at hread
        simp only [if_true, List.append_nil] at hread ⊢
        rw [hread]
        simp [ofDigits, digitValue, Nat.pow_succ, Nat.mul_assoc]
    | false =>
        refine ⟨n, ?_⟩
        have hread := @readNumeral_whole (digits ++ List.replicate n '0') [] 0 negative
          (by simp [hne]) hall (by simp) rfl
        rw [ofDigits_append, ofDigits_zeros] at hread
        simp only [if_false, List.append_nil, Bool.false_eq_true] at hread ⊢
        rw [hread]
        simp
  · rw [List.forall_mem_append] at hdigits
    have hread := @readNumeral_fraction whole fraction [] 0 negative hwhole hdigits.1 hdigits.2
      (by simp) rfl
    rw [List.append_nil] at hread
    refine ⟨0, ?_⟩
    rw [htext, hread]
    simp
  · have hfraction : ∀ c ∈ List.replicate n '0' ++ digits, c.isDigit = true :=
      List.forall_mem_append.2 ⟨fun c => isDigit_of_mem_zeros, hdigits⟩
    have hzero : ofDigits ['0'] = 0 := rfl
    have hread := @readNumeral_fraction ['0'] (List.replicate n '0' ++ digits) [] 0 negative
      (by simp) (List.all_eq_true.1 rfl) hfraction (by simp) rfl
    rw [ofDigits_append, ofDigits_append, ofDigits_zeros, hzero, List.length_append,
      List.length_replicate, List.append_nil] at hread
    refine ⟨0, ?_⟩
    rw [htext, hread]
    simp

/-- A power of ten is read, with a plus before it or without. -/
theorem readPower_intDigits (n : Int) (plus : Bool) (hplus : plus = true → 0 < n) :
    readPower ('e' :: ((if plus then ['+'] else []) ++ intDigits n)) = some n := by
  have hread : ∀ (m : Nat) (negative : Bool) (s : List Char),
      cutSign s = (negative, natDigits m) →
        readPower ('e' :: s) = some (if negative then -(m : Int) else m) := by
    intro m negative s hs
    have hne : (natDigits m).isEmpty = false := by
      rw [List.isEmpty_eq_false_iff]
      exact Nat.toDigits_ne_nil
    have hall : (natDigits m).all Char.isDigit = true :=
      List.all_eq_true.2 fun c => isDigit_of_mem_natDigits
    rw [readPower, if_pos (.inl rfl), hs]
    simp [hne, hall, ofDigits_natDigits]
  have hunsigned : ∀ m, cutSign (natDigits m) = (false, natDigits m) := by
    intro m
    obtain ⟨c, rest, hcons, hplus, hminus⟩ := natDigits_eq_cons m
    rw [hcons, cutSign]
    · simpa using hplus
    · simpa using hminus
  cases n with
  | ofNat m =>
      cases plus with
      | true => exact hread m false _ rfl
      | false => exact hread m false _ (hunsigned m)
  | negSucc m =>
      cases plus with
      | true => exact absurd (hplus rfl) (by omega)
      | false => exact hread (m + 1) true _ rfl

/-- Digits with a power of ten are read as their decimal. -/
theorem readNumeral_withPower (l : Layout) {digits : List Char} (hne : digits ≠ [])
    (hdigits : ∀ c ∈ digits, c.isDigit = true) (leading : Int) (negative : Bool) :
    readNumeral negative (l.withPower digits leading) =
      some ⟨negative, ofDigits digits, leading - (digits.length - 1 : Nat)⟩ := by
  obtain ⟨c, rest, rfl⟩ := List.exists_cons_of_ne_nil hne
  rw [List.forall_mem_cons] at hdigits
  have hone : ∀ d ∈ [c], d.isDigit = true := by simpa using hdigits.1
  have hpower := readPower_intDigits leading (l.signedExponent && decide (0 < leading))
    (by simp)
  generalize hsigned : ('e' :: ((if l.signedExponent && decide (0 < leading) then ['+'] else []) ++
    intDigits leading)) = power at hpower
  have hstart : ∀ d, power.head? = some d → d.isDigit = false ∧ d ≠ '.' := by
    intro d hd
    rw [← hsigned] at hd
    rw [← Option.some.inj hd]
    decide
  have htext : l.withPower (c :: rest) leading =
      [c] ++ ((if rest.isEmpty then [] else '.' :: rest) ++ power) := by
    rw [← hsigned]
    simp [Layout.withPower]
  rw [htext]
  cases rest with
  | nil =>
      have hread := readNumeral_whole negative (by simp) hone hstart hpower
      simpa using hread
  | cons d more =>
      have hread := readNumeral_fraction negative (by simp) hone hdigits.2
        (fun c hc => (hstart c hc).1) hpower
      simpa using hread

/-- The digits of a decimal are read as the decimal in every layout. -/
theorem readNumeral_positive (l : Layout) (m : Nat) (e : Int) (negative : Bool) :
    ∃ zeros : Nat, readNumeral negative (l.positive m e) =
      some ⟨negative, (shortest l.tie m e).significand * 10 ^ zeros,
        (shortest l.tie m e).exponent - zeros⟩ := by
  have hdigits : ∀ c ∈ natDigits (shortest l.tie m e).significand, c.isDigit = true :=
    fun c => isDigit_of_mem_natDigits
  have hne : natDigits (shortest l.tie m e).significand ≠ [] := Nat.toDigits_ne_nil
  rw [Layout.positive]
  split
  · have h := readNumeral_around l hne hdigits (shortest l.tie m e).exponent negative
    rwa [ofDigits_natDigits] at h
  · have h := readNumeral_withPower l hne hdigits
      ((natDigits (shortest l.tie m e).significand).length + (shortest l.tie m e).exponent - 1)
      negative
    have hlength : 0 < (natDigits (shortest l.tie m e).significand).length :=
      List.length_pos_iff.2 hne
    refine ⟨0, ?_⟩
    rw [ofDigits_natDigits] at h
    rw [h, pow_zero, Nat.mul_one, Nat.cast_zero, sub_zero]
    congr 2
    omega

/-! ## Doubles -/

/-- The text of a numeral does not begin with a sign. -/
theorem cutSign_of_readNumeral {negative : Bool} {s : List Char} {n : Numeral}
    (h : readNumeral negative s = some n) :
    cutSign ((if negative then ['-'] else []) ++ s) = (negative, s) := by
  cases negative with
  | true => rfl
  | false =>
      have hsign : ∀ c rest, s = c :: rest → c ≠ '+' ∧ c ≠ '-' := by
        rintro c rest rfl
        constructor
        · rintro rfl
          exact absurd h (by simp [readNumeral])
        · rintro rfl
          exact absurd h (by simp [readNumeral])
      cases s with
      | nil => rfl
      | cons c rest =>
          obtain ⟨hplus, hminus⟩ := hsign c rest rfl
          simp [cutSign, hplus, hminus]

/-- A finite double is printed by its sign and its digits. -/
theorem chars_of_parts (l : Layout) {x : Float} {negative : Bool} {m : Nat} {e : Int}
    (h : parts x = .finite negative m e) :
    l.chars x = (if negative then ['-'] else []) ++
      (if m = 0 then l.around ['0'] 0 else l.positive m e) := by
  rw [Layout.chars, h]

/-- The text of a finite double, in whatever layout, is a numeral that is read as the double. -/
theorem toFloat_chars (l : Layout) {x : Float} (hx : x.isFinite = true) :
    ∃ (n : Numeral) (s : List Char), cutSign (l.chars x) = (n.negative, s) ∧
      readNumeral n.negative s = some n ∧ n.toFloat = x := by
  obtain ⟨negative, m, e, hparts⟩ := exists_parts_of_isFinite hx
  rw [chars_of_parts l hparts]
  rcases Nat.eq_zero_or_pos m with rfl | hm
  · rw [if_pos rfl]
    obtain ⟨zeros, hread⟩ :=
      readNumeral_around l (List.cons_ne_nil '0' []) (List.all_eq_true.1 rfl) 0 negative
    have hzero : ofDigits ['0'] = 0 := rfl
    rw [hzero, Nat.zero_mul] at hread
    refine ⟨⟨negative, 0, 0 - zeros⟩, _, cutSign_of_readNumeral hread, hread, ?_⟩
    rw [zero_of_parts hparts]
    rfl
  · rw [if_neg (Nat.ne_of_gt hm)]
    obtain ⟨zeros, hread⟩ := readNumeral_positive l m e negative
    exact ⟨⟨negative, _, _⟩, _, cutSign_of_readNumeral hread, hread,
      toFloat_shortest l.tie hparts hm zeros⟩

end Decimal
end Retrace
