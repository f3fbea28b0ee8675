import Mathlib
import Retrace.Decimal.Layout
import Retrace.Decimal.Reading

/-!
# Whole numbers read back

The digits that write a whole number are read as the same number wherever the number is within the
bounds of the type that is read.  So no two numbers have the same digits.

Main results:

- Theorem `readUInt64_natDigits`: the digits of an unsigned number read back.
- Theorem `readInt64_intDigits`: the digits of a signed number read back.
- Theorem `readUInt64_intDigits`: an unsigned number that was recorded as a signed one reads back
  below the half of its range.
-/

namespace Retrace
namespace Decimal

/-! ## Digits -/

/-- A number is written in digits. -/
theorem isDigit_of_mem_natDigits {n : Nat} {c : Char} (h : c ∈ natDigits n) : c.isDigit = true :=
  Nat.isDigit_of_mem_toDigits (by decide) (by decide) h

/-- The digits of a number write it. -/
theorem ofDigits_natDigits (n : Nat) : ofDigits (natDigits n) = n := by
  have h : Nat.ofDigitChars 10 (Nat.toDigits 10 n) 0 = n := Nat.ofDigitChars_ten_toDigits
  rwa [Nat.ofDigitChars_eq_foldl] at h

theorem natDigits_injective {m n : Nat} (h : natDigits m = natDigits n) : m = n := by
  rw [← ofDigits_natDigits m, h, ofDigits_natDigits]

/-- The digits of a positive number begin with no zero. -/
theorem head?_natDigits {n : Nat} (h : 0 < n) : (natDigits n).head? ≠ some '0' := by
  induction n using Nat.strongRecOn with
  | ind n ih =>
      by_cases hsmall : n < 10
      · have hdigit : ∀ d < 10, 0 < d → (Nat.digitChar d) ≠ '0' := by decide
        rw [natDigits, Nat.toDigits_of_lt_base hsmall]
        simpa using hdigit n hsmall h
      · have hrest := ih (n / 10) (by omega) (by omega)
        rw [natDigits] at hrest
        rw [natDigits, Nat.toDigits_of_base_le (by decide) (by omega), List.head?_append]
        cases hdigits : (Nat.toDigits 10 (n / 10)).head? with
        | none => exact absurd (List.head?_eq_none_iff.1 hdigits) Nat.toDigits_ne_nil
        | some c => rwa [hdigits] at hrest

/-- The digits of a number begin with a digit, so with no sign. -/
theorem natDigits_eq_cons (n : Nat) :
    ∃ c rest, natDigits n = c :: rest ∧ c ≠ '+' ∧ c ≠ '-' := by
  cases h : natDigits n with
  | nil => exact absurd h Nat.toDigits_ne_nil
  | cons c rest =>
      have hdigit := isDigit_of_mem_natDigits (h ▸ List.mem_cons_self : c ∈ natDigits n)
      refine ⟨c, rest, rfl, ?_, ?_⟩
      · rintro rfl
        exact absurd hdigit (by decide)
      · rintro rfl
        exact absurd hdigit (by decide)

/-- What was read before is shifted by the digits that follow. -/
theorem foldl_digits (s : List Char) (n : Nat) :
    s.foldl (fun n c => 10 * n + digitValue c) n = n * 10 ^ s.length + ofDigits s := by
  induction s generalizing n with
  | nil => simp [ofDigits]
  | cons c rest ih =>
      have hrest : ofDigits (c :: rest) = digitValue c * 10 ^ rest.length + ofDigits rest := by
        rw [ofDigits, List.foldl_cons, Nat.mul_zero, Nat.zero_add, ih]
      rw [List.foldl_cons, ih, hrest, List.length_cons, Nat.pow_succ', Nat.add_mul, Nat.add_assoc,
        Nat.mul_comm 10 n, Nat.mul_assoc]

/-- Digits after others write a number after the other one's places. -/
theorem ofDigits_append (s t : List Char) :
    ofDigits (s ++ t) = ofDigits s * 10 ^ t.length + ofDigits t := by
  rw [ofDigits, List.foldl_append, foldl_digits]
  rfl

theorem ofDigits_zeros (n : Nat) : ofDigits (List.replicate n '0') = 0 := by
  rw [ofDigits]
  induction n with
  | zero => rfl
  | succ n ih => exact ih

theorem isDigit_of_mem_zeros {n : Nat} {c : Char} (h : c ∈ List.replicate n '0') :
    c.isDigit = true := by
  rw [List.eq_of_mem_replicate h]
  rfl

/-- The digits of a text are taken up to the first other character. -/
theorem takeWhile_digits {digits tail : List Char} (hdigits : ∀ c ∈ digits, c.isDigit = true)
    (htail : ∀ c, tail.head? = some c → c.isDigit = false) :
    (digits ++ tail).takeWhile Char.isDigit = digits := by
  rw [List.takeWhile_append_of_pos hdigits]
  cases tail with
  | nil => simp
  | cons c rest => simp [htail c rfl]

/-- Behind the digits the tail is left. -/
theorem dropWhile_digits {digits tail : List Char} (hdigits : ∀ c ∈ digits, c.isDigit = true)
    (htail : ∀ c, tail.head? = some c → c.isDigit = false) :
    (digits ++ tail).dropWhile Char.isDigit = tail := by
  rw [List.dropWhile_append_of_pos hdigits]
  cases tail with
  | nil => rfl
  | cons c rest => simp [htail c rfl]

/-! ## Reading -/

/-- More digits do not make a number smaller. -/
theorem le_foldl_digits (s : List Char) (n : Nat) :
    n ≤ s.foldl (fun n c => 10 * n + digitValue c) n := by
  induction s generalizing n with
  | nil => exact Nat.le_refl n
  | cons c rest ih =>
      have := ih (10 * n + digitValue c)
      rw [List.foldl_cons]
      omega

/-- Digits that write a number within the bound are read. -/
theorem readBelow_of_le {bound : Nat} {fault : NumberFault} {n : Nat} {s : List Char}
    (hdigits : ∀ c ∈ s, c.isDigit = true)
    (hle : s.foldl (fun n c => 10 * n + digitValue c) n ≤ bound) :
    readBelow bound fault n s = .ok (s.foldl (fun n c => 10 * n + digitValue c) n) := by
  induction s generalizing n with
  | nil => rfl
  | cons c rest ih =>
      rw [List.forall_mem_cons] at hdigits
      rw [List.foldl_cons] at hle ⊢
      have := le_foldl_digits rest (10 * n + digitValue c)
      rw [readBelow, if_neg (by simp [hdigits.1]), if_neg (by omega)]
      exact ih hdigits.2 hle

/-- A number up to the bound is read back. -/
theorem readBelow_natDigits {bound n : Nat} (fault : NumberFault) (h : n ≤ bound) :
    readBelow bound fault 0 (natDigits n) = .ok n := by
  have hvalue := ofDigits_natDigits n
  rw [ofDigits] at hvalue
  rw [readBelow_of_le (fun c => isDigit_of_mem_natDigits) (by omega), hvalue]

/-- The digits of a number within the bound read back. -/
theorem readNat_natDigits {bound n : Nat} (h : n ≤ bound) :
    readNat bound (natDigits n) = .ok n := by
  have hread := readBelow_natDigits .tooLarge h
  rcases natDigits_eq_cons n with ⟨c, rest, hcons, hplus, hminus⟩
  rw [hcons] at hread ⊢
  rw [readNat]
  · exact hread
  all_goals simp_all

/-- The digits of an unsigned number read back. -/
theorem readUInt64_natDigits (n : UInt64) : readUInt64 (natDigits n.toNat) = .ok n := by
  rw [readUInt64, readNat_natDigits (Nat.le_sub_one_of_lt n.toNat_lt)]
  simp [Except.map]

/-- A number of 32 bits is read back. -/
theorem readUInt32_natDigits (n : UInt32) : readUInt32 (natDigits n.toNat) = .ok n := by
  rw [readUInt32, readNat_natDigits (Nat.le_sub_one_of_lt n.toNat_lt)]
  simp [Except.map]

/-- An unsigned number below the half of its range stays itself as a signed one. -/
theorem toInt_toInt64 {n : UInt64} (h : n.toNat < 2 ^ 63) : n.toInt64.toInt = n.toNat := by
  have hbits : n.toInt64.toInt = n.toBitVec.toInt := rfl
  rw [hbits, BitVec.toInt_eq_toNat_of_lt]
  · rfl
  · change 2 * n.toNat < 2 ^ 64
    omega

/-- An unsigned number that was recorded as a signed one reads back below the half of its range. -/
theorem readUInt64_intDigits {n : UInt64} (h : n.toNat < 2 ^ 63) :
    readUInt64 (intDigits n.toInt64.toInt) = .ok n := by
  rw [toInt_toInt64 h]
  exact readUInt64_natDigits n

/-- The digits of a signed number read back. -/
theorem readInt64_intDigits (n : Int64) : readInt64 (intDigits n.toInt) = .ok n := by
  have hlower : -(2 ^ 63) ≤ n.toInt := n.le_toInt
  have hupper : n.toInt < 2 ^ 63 := n.toInt_lt
  have hback : Int64.ofInt n.toInt = n := Int64.ofInt_toInt n
  cases hn : n.toInt with
  | ofNat m =>
      rw [hn] at hupper hback
      have hread : readBelow (UInt64.size / 2 - 1) .tooLarge 0 (natDigits m) = .ok m :=
        readBelow_natDigits _
          (by simp only [Int.ofNat_eq_natCast] at hupper; simp [UInt64.size]; omega)
      rcases natDigits_eq_cons m with ⟨c, rest, hcons, hplus, hminus⟩
      rw [hcons] at hread
      rw [intDigits, hcons]
      rw [readInt64]
      · rw [hread, ← hback]
        rfl
      all_goals simp_all
  | negSucc m =>
      rw [hn] at hlower hback
      have hread : readBelow (UInt64.size / 2) .tooSmall 0 (natDigits (m + 1)) = .ok (m + 1) :=
        readBelow_natDigits _ (by simp [UInt64.size]; omega)
      rcases natDigits_eq_cons (m + 1) with ⟨c, rest, hcons, -, -⟩
      rw [hcons] at hread
      rw [intDigits, hcons]
      rw [readInt64]
      · rw [hread, ← hback]
        rfl
      all_goals simp_all

end Decimal
end Retrace
