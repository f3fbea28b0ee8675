import Retrace.Proofs.JsonValues
import Retrace.Proofs.PrintedDoubles

/-!
# Doubles as JSON numbers

A finite double is written as a number by the grammar of JSON, whichever way its digits are laid
out, and is read back from it; a double that is not finite is written as null, which is no double.

Main results:

- Theorem `isNumber_chars`: a finite double is written as a number.
- Theorem `double?_double`: a double is read where it was written exactly if it is finite.
-/

namespace Retrace
namespace Json

/-! ## Shapes of numbers -/

/-- A point, digits and a power follow the whole part of a number. -/
theorem isTail_of_fraction {fraction power : List Char} (hne : fraction ≠ [])
    (hfraction : ∀ c ∈ fraction, c.isDigit = true) (hpower : isPower power = true) :
    isTail ('.' :: (fraction ++ power)) = true := by
  have hstart : ∀ c, power.head? = some c → c.isDigit = false := by
    intro c hc
    obtain ⟨rest, rfl⟩ := List.head?_eq_some_iff.1 hc
    simp only [isPower, Bool.and_eq_true, Bool.or_eq_true, decide_eq_true_eq] at hpower
    rcases hpower.1.1 with rfl | rfl <;> rfl
  have hpoint : ((('.' :: (fraction ++ power)) : List Char).head? == some '.') = true := rfl
  rw [isTail, if_pos hpoint, List.drop_one, List.tail_cons,
    Decimal.takeWhile_digits hfraction hstart, Decimal.dropWhile_digits hfraction hstart, hpower,
    Bool.and_true]
  simpa using hne

/-- An integer with a plus or not is a power of ten behind its letter. -/
theorem isPower_intDigits (n : Int) (plus : Bool) (hplus : plus = true → 0 < n) :
    isPower ('e' :: ((if plus then ['+'] else []) ++ Decimal.intDigits n)) = true := by
  have hnat : ∀ m sign, sign = [] ∨ sign = ['+'] ∨ sign = ['-'] →
      isPower ('e' :: (sign ++ Decimal.natDigits m)) = true := by
    intro m sign hsign
    obtain ⟨c, rest, hcons, hplus, hminus⟩ := Decimal.natDigits_eq_cons m
    have hdigits : (c :: rest).all Char.isDigit = true :=
      List.all_eq_true.2 fun d hd => Decimal.isDigit_of_mem_natDigits (hcons ▸ hd)
    rw [hcons]
    rcases hsign with rfl | rfl | rfl
    · simp only [isPower, List.nil_append, List.head?_cons, Option.some_beq_some,
        beq_eq_false_iff_ne.2 hplus, beq_eq_false_iff_ne.2 hminus, Bool.or_self,
        Bool.false_eq_true, if_false, hdigits]
      rfl
    · exact hdigits
    · exact hdigits
  cases n with
  | ofNat m =>
      cases plus with
      | true => exact hnat m ['+'] (by simp)
      | false => exact hnat m [] (by simp)
  | negSucc m =>
      cases plus with
      | true => exact absurd (hplus rfl) (by omega)
      | false => exact hnat (m + 1) ['-'] (by simp)

/-- More digits behind a whole part that does not begin with zero leave it whole. -/
theorem isWhole_append {digits : List Char} (hne : digits ≠ []) (h : digits.head? ≠ some '0')
    (more : List Char) : isWhole (digits ++ more) = true := by
  obtain ⟨c, rest, rfl⟩ := List.exists_cons_of_ne_nil hne
  have hc : c ≠ '0' := by simpa using h
  simp [isWhole, hc]

/-! ## Layouts -/

/-- Digits around a point are a number: either they begin with no zero, or they are one zero and no
more zeros are put after it. -/
theorem isNumber_around {digits : List Char} (hdigits : ∀ c ∈ digits, c.isDigit = true)
    (hne : digits ≠ []) {exponent : Int}
    (hzero : digits.head? = some '0' → digits = ['0'] ∧ exponent ≤ 0) (negative : Bool) :
    isNumber ((if negative then ['-'] else []) ++ Decimal.json.around digits exponent) = true := by
  have hpoint : ∀ (tail : List Char) c, ('.' :: tail).head? = some c → c.isDigit = false := by
    rintro tail c hc
    rw [← Option.some.inj hc]
    rfl
  rcases Decimal.json.around_cases hne exponent with ⟨n, rfl, htext⟩ |
    ⟨whole, fraction, hwhole, hfraction, rfl, rfl, htext⟩ | ⟨n, -, htext⟩
  · have hall : ∀ c ∈ digits ++ List.replicate n '0', c.isDigit = true :=
      List.forall_mem_append.2 ⟨hdigits, fun c => Decimal.isDigit_of_mem_zeros⟩
    have hwhole : isWhole (digits ++ List.replicate n '0') = true := by
      by_cases hfirst : digits.head? = some '0'
      · obtain ⟨rfl, hle⟩ := hzero hfirst
        obtain rfl : n = 0 := by omega
        rfl
      · exact isWhole_append hne hfirst _
    rw [htext]
    exact isNumber_append hall hwhole (show isTail ['.', '0'] = true from rfl) (hpoint _) negative
  · rw [List.forall_mem_append] at hdigits
    have hfirst : whole.head? ≠ some '0' := by
      intro hfirst
      obtain ⟨hone, -⟩ := hzero (by rw [List.head?_append, hfirst]; rfl)
      have hlength := congrArg List.length hone
      rw [List.length_append, List.length_singleton] at hlength
      have hbefore := List.length_pos_iff.2 hwhole
      have hbehind := List.length_pos_iff.2 hfraction
      omega
    have htail := isTail_of_fraction hfraction hdigits.2 (show isPower [] = true from rfl)
    have hstart := isWhole_append hwhole hfirst []
    rw [List.append_nil] at htail hstart
    rw [htext]
    exact isNumber_append hdigits.1 hstart htail (hpoint _) negative
  · have hmore : ∀ c ∈ List.replicate n '0' ++ digits, c.isDigit = true :=
      List.forall_mem_append.2 ⟨fun c => Decimal.isDigit_of_mem_zeros, hdigits⟩
    have htail := isTail_of_fraction (by simp [hne]) hmore (show isPower [] = true from rfl)
    rw [List.append_nil] at htail
    rw [htext]
    exact isNumber_append (List.all_eq_true.1 rfl) rfl htail (hpoint _) negative

/-- Digits with a power of ten are a number. -/
theorem isNumber_withPower {digits : List Char} (hdigits : ∀ c ∈ digits, c.isDigit = true)
    (hne : digits ≠ []) (leading : Int) (negative : Bool) :
    isNumber ((if negative then ['-'] else []) ++ Decimal.json.withPower digits leading) =
      true := by
  obtain ⟨c, rest, rfl⟩ := List.exists_cons_of_ne_nil hne
  rw [List.forall_mem_cons] at hdigits
  have hpower := isPower_intDigits leading (decide (0 < leading)) (by simp)
  have hwhole : isWhole [c] = true := by
    by_cases hc : c = '0'
    · rw [hc]
      rfl
    · simp [isWhole, hc]
  have hstart : ∀ (first : Char) (tail : List Char) d, first.isDigit = false →
      (first :: tail).head? = some d → d.isDigit = false := by
    rintro first tail d hfirst hd
    rwa [← Option.some.inj hd]
  have hone : ∀ d ∈ [c], d.isDigit = true := by simpa using hdigits.1
  have htext : Decimal.json.withPower (c :: rest) leading =
      [c] ++ ((if rest.isEmpty then [] else '.' :: rest) ++
        ('e' :: ((if decide (0 < leading) then ['+'] else []) ++ Decimal.intDigits leading))) := by
    simp [Decimal.Layout.withPower, Decimal.json]
  rw [htext]
  cases rest with
  | nil =>
      exact isNumber_append hone hwhole (by simpa [isTail] using hpower) (hstart _ _ · rfl) negative
  | cons d more =>
      exact isNumber_append hone hwhole (isTail_of_fraction (by simp) hdigits.2 hpower)
        (hstart _ _ · rfl) negative

/-! ## Doubles -/

/-- A finite double is written as a number. -/
theorem isNumber_chars {x : Float} (hx : x.isFinite = true) :
    isNumber (Decimal.json.chars x) = true := by
  obtain ⟨negative, m, e, hparts⟩ := Decimal.exists_parts_of_isFinite hx
  rw [Decimal.chars_of_parts Decimal.json hparts]
  rcases Nat.eq_zero_or_pos m with rfl | hm
  · rw [if_pos rfl]
    exact isNumber_around (List.all_eq_true.1 rfl) (by decide) (by simp) negative
  · have hpos := Decimal.significand_shortest_pos Decimal.json.tie hm
      (Decimal.isDouble_of_parts hparts)
    have hdigits : ∀ c ∈ Decimal.natDigits (Decimal.shortest Decimal.json.tie m e).significand,
        c.isDigit = true := fun c => Decimal.isDigit_of_mem_natDigits
    have hne : Decimal.natDigits (Decimal.shortest Decimal.json.tie m e).significand ≠ [] :=
      Nat.toDigits_ne_nil
    rw [if_neg (Nat.ne_of_gt hm), Decimal.Layout.positive]
    by_cases hpositional : Decimal.json.isPositional
        ((Decimal.natDigits (Decimal.shortest Decimal.json.tie m e).significand).length +
          (Decimal.shortest Decimal.json.tie m e).exponent - 1) = true
    · rw [if_pos hpositional]
      exact isNumber_around hdigits hne (fun h => absurd h (Decimal.head?_natDigits hpos)) negative
    · rw [if_neg hpositional]
      exact isNumber_withPower hdigits hne _ negative

/-- A double is read where it was written exactly if it is finite. -/
theorem double?_double (x : Float) :
    (double x).double? = if x.isFinite then some x else none := by
  rw [double]
  split
  · rename_i hfinite
    obtain ⟨n, s, hsign, hread, hvalue⟩ := Decimal.toFloat_chars Decimal.json hfinite
    rw [double?]
    simp only [hsign, hread, hvalue, hfinite, if_true]
  · rfl

/-- A double can be written, as a number or as nothing. -/
@[simp] theorem isWritten_double (x : Float) : (double x).isWritten = true := by
  rw [double]
  split
  · rename_i hfinite
    exact isNumber_chars hfinite
  · rfl

/-- Doubles are read back one by one if all of them are finite. -/
theorem each?_double (xs : List Float) :
    each? double? (xs.map double) = if xs.all Float.isFinite then some xs else none :=
  each?_map fun x _ => double?_double x

/-- Whether it is finite or not, what is written for a double means something. -/
theorem meaningful_double (x : Float) (depth : Nat) : (double x).meaningful depth = true := by
  have hread := double?_double x
  rw [double] at hread ⊢
  by_cases hfinite : x.isFinite = true
  · rw [if_pos hfinite] at hread ⊢
    rw [meaningful, hread, if_pos hfinite]
    rfl
  · rw [if_neg hfinite]
    rfl

/-- A small whole number can be read as a double. -/
theorem meaningful_nat {n : Nat} (h : n < 2 ^ 53) (depth : Nat) :
    (nat n).meaningful depth = true := by
  have hread := @Decimal.readNumeral_whole (Decimal.natDigits n) [] 0 false Nat.toDigits_ne_nil
    (fun c => Decimal.isDigit_of_mem_natDigits) (by simp) rfl
  have hsign := Decimal.cutSign_of_readNumeral hread
  rw [List.append_nil, Decimal.ofDigits_natDigits] at hread
  simp only [Bool.false_eq_true, if_false, List.nil_append, List.append_nil] at hsign
  have hfinite : Decimal.Numeral.toFloat ⟨false, n, 0⟩ = Decimal.nearest n 0 := rfl
  rw [nat, meaningful, double?, hsign]
  simp only [hread, hfinite, Decimal.isFinite_nearest h, if_true, Option.isSome_some]

end Json
end Retrace
