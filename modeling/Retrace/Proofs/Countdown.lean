import Mathlib.Logic.Function.Basic
import Retrace.Proofs.DependencyOrder

/-!
# Arranging by counting down

An arrangement need not look at all numbers to find the next one.  It is enough to count for every
number the dependencies that it misses, to keep the numbers that miss none, and to count down for
the dependents of each number that is taken.  The least of the kept numbers is always the number
that an arrangement takes next, so both come to the same list.

Main results:

- Theorem `counts_take`: taking a number keeps the counts right.
- Theorem `min?_ready`: the least kept number is the next one of an arrangement.
- Theorem `taken_run`: counting down arranges, and ends when no number is kept.
-/

namespace Retrace

/-- How far numbers have been taken. -/
structure Countdown where
  /-- how many dependencies a number misses -/
  missing : Nat → Nat
  /-- the numbers that miss nothing and are not taken yet -/
  ready : List Nat
  /-- the numbers that have been taken, in this order -/
  taken : List Nat

namespace Countdown

variable (dependencies : List (List Nat))

/-- What a number depends on. -/
def needs (m : Nat) : List Nat :=
  dependencies[m]?.getD []

/-- The numbers that depend on a number, each as often as it does. -/
def dependents (n : Nat) : List Nat :=
  (List.range dependencies.length).flatMap fun m =>
    List.replicate ((needs dependencies m).count n) m

/-- Nothing has been taken. -/
def start : Countdown where
  missing m := (needs dependencies m).length
  ready := (List.range dependencies.length).filter fun m => (needs dependencies m).isEmpty
  taken := []

/-- Count down for a number that misses one dependency less; it is kept if it misses no other. -/
def release (c : Countdown) (m : Nat) : Countdown where
  missing := Function.update c.missing m (c.missing m - 1)
  ready := if c.missing m - 1 = 0 then m :: c.ready else c.ready
  taken := c.taken

/-- Take a number and count down for its dependents. -/
def take (c : Countdown) (n : Nat) : Countdown :=
  (dependents dependencies n).foldl release
    { c with ready := c.ready.erase n, taken := c.taken ++ [n] }

/-- Take the least number that is kept, at most so many times. -/
def run : Nat → Countdown → Countdown
  | 0, c => c
  | steps + 1, c =>
      match c.ready.min? with
      | some n => run steps (c.take dependencies n)
      | none => c

/-! ## Counting down for several numbers -/

@[simp] theorem taken_foldl_release (l : List Nat) (c : Countdown) :
    (l.foldl release c).taken = c.taken := by
  induction l generalizing c with
  | nil => rfl
  | cons x l ih => rw [List.foldl_cons, ih, release]

/-- A release brings one object closer to being ready. -/
theorem missing_release (c : Countdown) (x m : Nat) :
    (c.release x).missing m = c.missing m - if x = m then 1 else 0 := by
  by_cases h : x = m
  · subst h
    simp [release]
  · simp [release, h, Ne.symm h]

/-- Releases bring an object closer as often as it is among them. -/
theorem missing_foldl_release (l : List Nat) (c : Countdown) (m : Nat) :
    (l.foldl release c).missing m = c.missing m - l.count m := by
  induction l generalizing c with
  | nil => simp
  | cons x l ih =>
      rw [List.foldl_cons, ih, missing_release, List.count_cons]
      simp only [beq_iff_eq]
      omega

/-- An object that misses nothing more becomes ready. -/
theorem mem_ready_release {c : Countdown} (x m : Nat) :
    m ∈ (c.release x).ready ↔ m ∈ c.ready ∨ (x = m ∧ c.missing m - 1 = 0) := by
  rw [release]
  split
  · rename_i hzero
    rw [List.mem_cons]
    constructor
    · rintro (rfl | hm)
      · exact .inr ⟨rfl, hzero⟩
      · exact .inl hm
    · rintro (hm | ⟨rfl, -⟩)
      · exact .inr hm
      · exact .inl rfl
  · rename_i hleft
    constructor
    · exact .inl
    · rintro (hm | ⟨rfl, hzero⟩)
      · exact hm
      · exact absurd hzero hleft

/-- Counting down for one number leaves enough to count down for the rest. -/
theorem count_le_missing_release {x : Nat} {l : List Nat} {c : Countdown}
    (hcount : ∀ m, (x :: l).count m ≤ c.missing m) : ∀ m, l.count m ≤ (c.release x).missing m := by
  intro m
  have h := hcount m
  rw [List.count_cons] at h
  simp only [beq_iff_eq] at h
  rw [missing_release]
  omega

/-- A number is kept if it was, or if it misses exactly what is counted down for it. -/
theorem mem_ready_foldl_release {l : List Nat} {c : Countdown}
    (hcount : ∀ m, l.count m ≤ c.missing m) (m : Nat) :
    m ∈ (l.foldl release c).ready ↔ m ∈ c.ready ∨ (m ∈ l ∧ c.missing m = l.count m) := by
  induction l generalizing c with
  | nil => simp
  | cons x l ih =>
      rw [List.foldl_cons, ih (count_le_missing_release hcount), mem_ready_release,
        missing_release, List.mem_cons]
      by_cases hx : x = m
      · subst hx
        have hpos := hcount x
        rw [List.count_cons_self] at hpos ⊢
        have hleft : c.missing x - 1 = 0 ∨ (x ∈ l ∧ c.missing x - 1 = l.count x) ↔
            c.missing x = l.count x + 1 := by
          constructor
          · rintro (hzero | ⟨-, hleft⟩) <;> omega
          · intro hmissing
            by_cases hmem : x ∈ l
            · exact .inr ⟨hmem, by omega⟩
            · have := List.count_eq_zero.2 hmem
              exact .inl (by omega)
        simp only [if_true, true_and, true_or, or_assoc, hleft]
      · rw [List.count_cons_of_ne hx]
        simp [hx, Ne.symm hx]

/-- No number is kept twice, because a number that is kept misses nothing. -/
theorem nodup_ready_foldl_release {l : List Nat} {c : Countdown}
    (hcount : ∀ m, l.count m ≤ c.missing m) (hnodup : c.ready.Nodup)
    (hready : ∀ m ∈ c.ready, c.missing m = 0) : (l.foldl release c).ready.Nodup := by
  induction l generalizing c with
  | nil => exact hnodup
  | cons x l ih =>
      have hx := hcount x
      rw [List.count_cons_self] at hx
      refine ih (count_le_missing_release hcount) ?_ fun m hm => ?_
      · rw [release]
        split
        · refine List.nodup_cons.2 ⟨fun hmem => ?_, hnodup⟩
          have := hready x hmem
          omega
        · exact hnodup
      · rw [missing_release]
        rcases (mem_ready_release x m).1 hm with hm | ⟨rfl, hzero⟩
        · rw [hready m hm, Nat.zero_sub]
        · simpa using hzero

/-! ## Taking numbers -/

/-- Whether the counts are right: each number misses the dependencies that are not taken, and the
numbers that are kept are those that can be taken. -/
structure Counts (c : Countdown) : Prop where
  missing : ∀ m, c.missing m = (needs dependencies m).countP (· ∉ c.taken)
  ready : ∀ m, m ∈ c.ready ↔ m < dependencies.length ∧ m ∉ c.taken ∧ c.missing m = 0
  nodup : c.ready.Nodup
  done : ∀ m ∈ c.taken, c.missing m = 0

/-- At the start everything is counted that is needed. -/
theorem counts_start : (start dependencies).Counts dependencies := by
  refine ⟨fun m => ?_, fun m => ?_, List.nodup_range.filter _, by simp [start]⟩
  · simp [start]
  · simp [start]

variable {dependencies}

theorem lt_length_of_mem_needs {m n : Nat} (h : n ∈ needs dependencies m) :
    m < dependencies.length := by
  apply Decidable.byContradiction
  intro hge
  rw [needs, List.getElem?_eq_none (Nat.not_lt.1 hge)] at h
  simp at h

/-- A number stands in the list as often as it is repeated. -/
theorem count_flatMap_replicate (f : Nat → Nat) (size m : Nat) :
    ((List.range size).flatMap fun k => List.replicate (f k) k).count m =
      if m < size then f m else 0 := by
  induction size with
  | zero => simp
  | succ size ih =>
      rw [List.range_succ, List.flatMap_append, List.count_append, ih, List.flatMap_singleton,
        List.count_replicate]
      simp only [beq_iff_eq]
      rcases Nat.lt_trichotomy m size with h | rfl | h
      · rw [if_pos h, if_neg (by omega), if_pos (by omega), Nat.add_zero]
      · rw [if_neg (Nat.lt_irrefl m), if_pos rfl, if_pos (by omega), Nat.zero_add]
      · rw [if_neg (by omega), if_neg (by omega), if_neg (by omega)]

/-- A number is counted down for as often as it depends on the number that is taken. -/
theorem count_dependents (n m : Nat) :
    (dependents dependencies n).count m = (needs dependencies m).count n := by
  rw [dependents, count_flatMap_replicate]
  split
  · rfl
  · rename_i hge
    refine (List.count_eq_zero.2 fun hmem => ?_).symm
    exact hge (lt_length_of_mem_needs hmem)

/-- What is missing before a number is taken is what is missing after it, and that number. -/
theorem countP_missing {taken : List Nat} {n : Nat} (hn : n ∉ taken) (l : List Nat) :
    l.countP (· ∉ taken) = l.countP (· ∉ taken ++ [n]) + l.count n := by
  induction l with
  | nil => rfl
  | cons k l ih =>
      rw [List.countP_cons, List.countP_cons, List.count_cons, ih]
      by_cases hk : k = n
      · subst hk
        simp [hn]
        omega
      · by_cases hmem : k ∈ taken
        · simp [hk, hmem]
        · simp [hk, hmem]
          omega

/-- Taking a number that is kept keeps the counts right. -/
theorem counts_take {c : Countdown} (h : c.Counts dependencies) {n : Nat} (hn : n ∈ c.ready) :
    (c.take dependencies n).Counts dependencies := by
  obtain ⟨hbound, hnew, hzero⟩ := (h.ready n).1 hn
  let left : Countdown := { c with ready := c.ready.erase n, taken := c.taken ++ [n] }
  -- a number misses what it will still miss, and the one that is taken as often as it needs it
  have hsplit : ∀ m, c.missing m =
      (needs dependencies m).countP (· ∉ c.taken ++ [n]) + (dependents dependencies n).count m := by
    intro m
    rw [h.missing, countP_missing hnew, count_dependents]
  have hcount : ∀ m, (dependents dependencies n).count m ≤ left.missing m := by
    intro m
    change _ ≤ c.missing m
    have := hsplit m
    omega
  have hmissing : ∀ m, (c.take dependencies n).missing m =
      (needs dependencies m).countP (· ∉ c.taken ++ [n]) := by
    intro m
    rw [take, missing_foldl_release]
    change c.missing m - _ = _
    have := hsplit m
    omega
  have htaken : (c.take dependencies n).taken = c.taken ++ [n] := taken_foldl_release _ _
  refine ⟨fun m => ?_, fun m => ?_, ?_, fun m hm => ?_⟩
  · rw [htaken, hmissing]
  · have hleft := hsplit m
    have hpositive : m ∈ dependents dependencies n ↔ 0 < (dependents dependencies n).count m :=
      List.count_pos_iff.symm
    rw [htaken, hmissing, take, mem_ready_foldl_release hcount, h.nodup.mem_erase_iff, h.ready,
      hpositive, List.mem_append, List.mem_singleton]
    change (m ≠ n ∧ _) ∨ (_ ∧ c.missing m = _) ↔ _
    constructor
    · rintro (⟨hne, hm, hmnew, hnone⟩ | ⟨hsome, hall⟩)
      · exact ⟨hm, by simp [hmnew, hne], by omega⟩
      · -- a number that depends on the one that is taken missed something until now
        have hneeds : n ∈ needs dependencies m := by
          rw [← List.count_pos_iff, ← count_dependents]
          exact hsome
        refine ⟨lt_length_of_mem_needs hneeds, ?_, by omega⟩
        rintro (hm | rfl)
        · have := h.done m hm
          omega
        · omega
    · rintro ⟨hm, hmnew, hnone⟩
      rw [not_or] at hmnew
      rcases Nat.eq_zero_or_pos ((dependents dependencies n).count m) with hcountm | hcountm
      · exact .inl ⟨hmnew.2, hm, hmnew.1, by omega⟩
      · exact .inr ⟨hcountm, by omega⟩
  · refine nodup_ready_foldl_release hcount (h.nodup.erase n) fun m hm => ?_
    exact ((h.ready m).1 (List.mem_of_mem_erase hm)).2.2
  · rw [htaken, List.mem_append, List.mem_singleton] at hm
    rw [hmissing]
    have hleft := hsplit m
    rcases hm with hm | rfl
    · rw [h.done m hm] at hleft
      omega
    · rw [hzero] at hleft
      omega

/-! ## Runs -/

/-- The least kept number is the next one of an arrangement. -/
theorem min?_ready {c : Countdown} (h : c.Counts dependencies) :
    c.ready.min? = nextReady dependencies c.taken := by
  have hready : ∀ m, m ∈ c.ready ↔ m < dependencies.length ∧
      (!c.taken.contains m && (dependencies[m]?.getD []).all c.taken.contains) = true := by
    intro m
    rw [h.ready, h.missing, List.countP_eq_zero]
    simp [needs]
  rw [nextReady]
  cases hnext : (List.range dependencies.length).find? fun m =>
      !c.taken.contains m && (dependencies[m]?.getD []).all c.taken.contains with
  | none =>
      rw [List.find?_eq_none] at hnext
      rw [List.min?_eq_none_iff, List.eq_nil_iff_forall_not_mem]
      intro m hm
      exact hnext m (List.mem_range.2 ((hready m).1 hm).1) ((hready m).1 hm).2
  | some n =>
      rw [List.find?_range_eq_some] at hnext
      obtain ⟨hn, hbound, hfirst⟩ := hnext
      rw [List.min?_eq_some_iff]
      refine ⟨(hready n).2 ⟨List.mem_range.1 hbound, hn⟩, fun m hm => ?_⟩
      apply Nat.le_of_not_lt
      intro hless
      have := hfirst m hless
      rw [((hready m).1 hm).2] at this
      simp at this

/-- Counting down takes the numbers that an arrangement takes. -/
theorem run_spec (steps : Nat) {c : Countdown} (h : c.Counts dependencies) :
    (run dependencies steps c).taken = arrangeFrom dependencies c.taken steps ∧
      (run dependencies steps c).Counts dependencies := by
  induction steps generalizing c with
  | zero => exact ⟨rfl, h⟩
  | succ steps ih =>
      rw [run, arrangeFrom, min?_ready h]
      cases hnext : nextReady dependencies c.taken with
      | none => exact ⟨rfl, h⟩
      | some n =>
          have hn : n ∈ c.ready := (List.min?_eq_some_iff.1 ((min?_ready h).trans hnext)).1
          have htaken : (c.take dependencies n).taken = c.taken ++ [n] := taken_foldl_release _ _
          simp only
          rw [← htaken]
          exact ih (counts_take h hn)

/-- Counting down arranges all numbers, and it ends because no number is kept. -/
theorem taken_run (dependencies : List (List Nat)) :
    (run dependencies dependencies.length (start dependencies)).taken = arrange dependencies ∧
      (run dependencies dependencies.length (start dependencies)).ready = [] := by
  obtain ⟨htaken, hcounts⟩ := run_spec dependencies.length (counts_start dependencies)
  refine ⟨htaken, ?_⟩
  have hmin := min?_ready hcounts
  rw [htaken] at hmin
  exact List.min?_eq_none_iff.1 (hmin.trans (nextReady_arrange dependencies))

end Countdown
end Retrace
