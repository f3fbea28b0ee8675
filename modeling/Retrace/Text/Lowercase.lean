import Retrace.Text.CaseRanges

/-!
# Lower case

Lowering the case of a text follows the full mapping of the Unicode standard: the simple mapping of
every character, the two characters that a capital I with a dot becomes, and the small sigma at the
end of a word.  Lowering by ASCII alone is a function of its own.

Main results:

- Theorem `lowercase_ascii`: on ASCII text the full mapping is the ASCII mapping.
-/

namespace Retrace
namespace Text

/-- Whether a code point lies in one of the ranges. -/
def inRanges (ranges : List (Nat × Nat)) (n : Nat) : Bool :=
  ranges.any fun r => r.1 ≤ n && n ≤ r.2

/-- Whether a run maps the code point. -/
def CaseRun.covers (r : CaseRun) (n : Nat) : Bool :=
  r.first ≤ n && n ≤ r.last && (n - r.first) % r.step == 0

/-- The simple lowercase of a character. -/
def lowerChar (c : Char) : Char :=
  if c.toNat < 128 then c.toLower
  else
    match caseRuns.find? fun r => r.covers c.toNat with
    | some r => Char.ofNat (c.toNat + r.shift).toNat
    | none => c

/-- Whether the first character that case rules do not look through has case. -/
def startsCased (s : List Char) : Bool :=
  match s.dropWhile fun c => inRanges caseIgnorableRanges c.toNat with
  | [] => false
  | c :: _ => inRanges casedRanges c.toNat

/-- Lower the case of what follows `before`, which holds the characters passed so far, reversed. -/
def lowercaseFrom (before : List Char) : List Char → List Char
  | [] => []
  | c :: rest =>
      let lowered :=
        if c.toNat = 0x3A3 then
          [if startsCased before && !startsCased rest then Char.ofNat 0x3C2 else Char.ofNat 0x3C3]
        else if c.toNat = 0x130 then [Char.ofNat 0x69, Char.ofNat 0x307]
        else [lowerChar c]
      lowered ++ lowercaseFrom (c :: before) rest

/-- The text in lower case. -/
def lowercase (s : List Char) : List Char :=
  lowercaseFrom [] s

/-- The text with the letters A to Z in lower case and all else as it is. -/
def lowercaseAscii (s : List Char) : List Char :=
  s.map Char.toLower

theorem lowercaseFrom_ascii {before s : List Char} (h : ∀ c ∈ s, c.toNat < 128) :
    lowercaseFrom before s = lowercaseAscii s := by
  induction s generalizing before with
  | nil => rfl
  | cons c rest ih =>
      have hc : c.toNat < 128 := h c (by simp)
      have h1 : ¬ c.toNat = 0x3A3 := by omega
      have h2 : ¬ c.toNat = 0x130 := by omega
      simp only [lowercaseFrom, if_neg h1, if_neg h2, lowerChar, if_pos hc]
      rw [ih fun d hd => h d (by simp [hd])]
      rfl

/-- On ASCII text the full mapping is the ASCII mapping. -/
theorem lowercase_ascii {s : List Char} (h : ∀ c ∈ s, c.toNat < 128) :
    lowercase s = lowercaseAscii s :=
  lowercaseFrom_ascii h

end Text
end Retrace
