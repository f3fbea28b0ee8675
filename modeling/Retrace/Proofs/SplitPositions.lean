import Retrace.Data.Source
import Retrace.Proofs.RoundedProducts

/-!
# The positions of a split

A split exchanges the positions of a list, from the last one down, each with a position that is
drawn from those up to it, and cuts the result.  As long as no draw is beyond its position no
exchange is out of range, and no position is lost.  The cut lies at the whole part of a product that
never exceeds the number of positions.

Main results:

- Theorem `exists_exchanged`: whatever is drawn in range, the exchanges give the same entries.
- Theorem `exchanged_position`: a shuffle is the exchanges with what its stream draws.
- Theorem `trainSize_le`: the cut is never beyond the end.
- Theorem `split_partitions`: the two sides of a split have every sample exactly once.
-/

namespace Retrace

/-! ## Exchanges -/

namespace Draws

variable {β γ : Type}

/-- Exchange every entry from position `i` down with the one at the position that is drawn for it;
there is no result if one of them is out of range. -/
def exchanged? (drawn : Nat → Nat) (xs : Array β) : Nat → Option (Array β)
  | 0 => some xs
  | i + 1 =>
      if h : i + 1 < xs.size ∧ drawn (i + 1) < xs.size then
        exchanged? drawn (xs.swap (i + 1) (drawn (i + 1)) h.1 h.2) i
      else none

/-- The position that a stream draws for position `k` in a shuffle from position `i` down. -/
def position (d : Draws) : Nat → Nat → Nat
  | 0, _ => 0
  | i + 1, k =>
      let (j, d) := d.belowSmall (i + 2)
      if k = i + 1 then j else position d i k

/-- A number that is drawn is below its bound, however it is drawn. -/
theorem belowSmall_lt {bound : Nat} (h : 0 < bound) (d : Draws) :
    (d.belowSmall bound).1 < bound := by
  rw [belowSmall]
  split
  · exact belowFrom_lt _ h d _
  · exact below_lt h d

/-- What is drawn for a position is not beyond it. -/
theorem position_le (d : Draws) (i k : Nat) : d.position i k ≤ k := by
  induction i generalizing d with
  | zero => exact Nat.zero_le k
  | succ i ih =>
      simp only [position]
      split
      · have hlt : (d.belowSmall (i + 2)).1 < i + 2 := belowSmall_lt (Nat.succ_pos _) d
        omega
      · exact ih _

/-- Whatever is drawn for the positions, as long as it is not beyond them, every exchange is in
range and no entry is lost. -/
theorem exists_exchanged {drawn : Nat → Nat} (hdrawn : ∀ k, drawn k ≤ k) {i : Nat} {xs : Array β}
    (h : i = 0 ∨ i < xs.size) : ∃ ys, exchanged? drawn xs i = some ys ∧ ys.Perm xs := by
  induction i generalizing xs with
  | zero => exact ⟨xs, rfl, .refl _⟩
  | succ i ih =>
      have hsize : i + 1 < xs.size := h.resolve_left (Nat.succ_ne_zero i)
      have hrange : i + 1 < xs.size ∧ drawn (i + 1) < xs.size :=
        ⟨hsize, Nat.lt_of_le_of_lt (hdrawn (i + 1)) hsize⟩
      obtain ⟨ys, hys, hperm⟩ := @ih (xs.swap (i + 1) (drawn (i + 1)) hrange.1 hrange.2)
        (.inr (by rw [Array.size_swap]; omega))
      refine ⟨ys, ?_, hperm.trans (Array.swap_perm _ _)⟩
      rw [exchanged?, dif_pos hrange, hys]

/-- Only what is drawn for the positions up to the first one matters. -/
theorem exchanged_congr {drawn other : Nat → Nat} {i : Nat} (h : ∀ k ≤ i, drawn k = other k)
    (xs : Array β) : exchanged? drawn xs i = exchanged? other xs i := by
  induction i generalizing xs with
  | zero => rfl
  | succ i ih =>
      simp only [exchanged?, h (i + 1) (Nat.le_refl _)]
      split
      · exact ih (fun k hk => h k (Nat.le_succ_of_le hk)) _
      · rfl

/-- A shuffle is the exchanges with what its stream draws. -/
theorem exchanged_position (d : Draws) {i : Nat} {xs : Array β} (h : i = 0 ∨ i < xs.size) :
    exchanged? (d.position i) xs i = some (d.shuffleFrom xs i) := by
  induction i generalizing d xs with
  | zero => rfl
  | succ i ih =>
      have hsize : i + 1 < xs.size := h.resolve_left (Nat.succ_ne_zero i)
      have hfirst : d.position (i + 1) (i + 1) = (d.belowSmall (i + 2)).1 := if_pos rfl
      have hlt : (d.belowSmall (i + 2)).1 < xs.size :=
        Nat.lt_of_lt_of_le (belowSmall_lt (Nat.succ_pos _) d) hsize
      have hrest : ∀ k ≤ i, d.position (i + 1) k = (d.belowSmall (i + 2)).2.position i k :=
        fun k hk => if_neg (by omega)
      have hswap : xs.swapIfInBounds (i + 1) (d.belowSmall (i + 2)).1 =
          xs.swap (i + 1) (d.belowSmall (i + 2)).1 hsize hlt := by
        rw [Array.swapIfInBounds, dif_pos hsize, dif_pos hlt]
      simp only [exchanged?, shuffleFrom, hfirst]
      rw [dif_pos ⟨hsize, hlt⟩, exchanged_congr hrest, hswap]
      exact ih _ (.inr (by rw [Array.size_swap]; omega))

/-- Entries may be changed before or after two of them are swapped. -/
theorem map_swap (f : β → γ) (xs : Array β) {i j : Nat} (hi : i < xs.size) (hj : j < xs.size) :
    (xs.swap i j hi hj).map f = (xs.map f).swap i j (by simpa) (by simpa) := by
  ext k h₁ h₂
  · simp
  · simp only [Array.getElem_map, Array.getElem_swap]
    split
    · rfl
    · split <;> rfl

/-- Entries may be changed before or after they are shuffled. -/
theorem shuffleFrom_map (f : β → γ) (d : Draws) (xs : Array β) (i : Nat) :
    d.shuffleFrom (xs.map f) i = (d.shuffleFrom xs i).map f := by
  induction i generalizing d xs with
  | zero => rfl
  | succ i ih =>
      simp only [shuffleFrom]
      rw [← ih]
      congr 1
      simp only [Array.swapIfInBounds, Array.size_map]
      split
      · split
        · exact (map_swap f xs _ _).symm
        · rfl
      · rfl

/-- The order that a stream gives a list does not depend on what the list holds. -/
theorem shuffle_map (f : β → γ) (d : Draws) (xs : List β) :
    d.shuffle (xs.map f) = (d.shuffle xs).map f := by
  rw [shuffle, shuffle, ← List.map_toArray, shuffleFrom_map, List.length_map, Array.toList_map]

end Draws

/-! ## Sizes -/

namespace DataSource

open Decimal Float.Model

theorem zero_mul {proportion : Float} (hpos : 0 < proportion) (hone : proportion < 1) :
    (0 : Nat).toFloat * proportion = 0 := by
  obtain ⟨m, e, hm, -, -, hunpack⟩ := exists_of_lt_one hpos hone
  have hzero : (0 : Nat).toFloat = 0 := by decide +kernel
  have hpacked : Float.ofModel (Float.Model.pack (.zero .positive)) = 0 := by decide +kernel
  rw [hzero, ← hpacked]
  change Float.ofModel (Float.Model.pack (UnpackedFloat.mul Format.binary64
    (0 : Float).toModel.unpack proportion.toModel.unpack)) = _
  rw [hunpack]
  rfl

/-- The first side of a split has the whole part of the product of size and proportion, which is a
finite double and not greater than the size. -/
theorem trainSize_eq_floor {size : Nat} {proportion : Float} (hpos : 0 < proportion)
    (hone : proportion < 1) (hsize : size < UInt64.size) :
    (size.toFloat * proportion).isFinite = true ∧
      Double.value (size.toFloat * proportion) ≤ size ∧
      (trainSize size proportion : ℤ) = ⌊Double.value (size.toFloat * proportion)⌋ := by
  rcases Nat.eq_zero_or_pos size with rfl | hfirst
  · have hparts : parts 0 = .finite false 0 (-1074) := by decide +kernel
    have hvalue : Double.value 0 = 0 := by
      rw [Double.value, hparts]
      simp
    rw [trainSize, zero_mul hpos hone, hvalue]
    exact ⟨by decide +kernel, le_of_eq Nat.cast_zero.symm, by decide +kernel⟩
  · obtain ⟨v, hstands, hle⟩ := exists_stands_mul hfirst hsize hpos hone
    have hlt : v < 2 ^ 64 := lt_of_le_of_lt hle (by exact_mod_cast hsize)
    rw [Double.value_of_stands hstands]
    exact ⟨Double.isFinite_of_stands hstands, hle, toNat_toUInt64 hstands hlt⟩

/-- The cut is never beyond the end. -/
theorem trainSize_le {proportion : Float} (hpos : 0 < proportion) (hone : proportion < 1)
    (size : Nat) : trainSize size proportion ≤ size := by
  rcases Nat.lt_or_ge size UInt64.size with hsize | hsize
  · obtain ⟨-, hle, hfloor⟩ := trainSize_eq_floor hpos hone hsize
    have hcast : ((trainSize size proportion : ℤ) : ℚ) ≤ size := by
      rw [hfloor]
      exact (Int.floor_le _).trans hle
    exact_mod_cast hcast
  · exact Nat.le_trans (Nat.le_of_lt (UInt64.toNat_lt _)) hsize

/-! ## Sides -/

/-- The positions on the two sides of a split of so many samples, with what is drawn for each
position; there are none if an exchange or the cut is out of range. -/
def positions? (size : Nat) (proportion : Float) (drawn : Nat → Nat) :
    Option (List Nat × List Nat) :=
  match Draws.exchanged? drawn (Array.range size) (size - 1) with
  | none => none
  | some order =>
      if trainSize size proportion ≤ order.size then
        some (order.toList.splitAt (trainSize size proportion))
      else none

theorem start_lt (size : Nat) : size - 1 = 0 ∨ size - 1 < (Array.range size).size := by
  rw [Array.size_range]
  omega

/-- Whatever is drawn in range, the two sides have every position exactly once. -/
theorem exists_positions {drawn : Nat → Nat} (hdrawn : ∀ k, drawn k ≤ k) {size : Nat}
    {proportion : Float} (hle : trainSize size proportion ≤ size) :
    ∃ train test, positions? size proportion drawn = some (train, test) ∧
      (train ++ test).Perm (List.range size) ∧ train.length = trainSize size proportion := by
  obtain ⟨order, horder, hperm⟩ := Draws.exists_exchanged hdrawn (start_lt size)
  have hperm' : order.toList.Perm (List.range size) := by simpa using hperm.toList
  have hsize : order.size = size := by simpa using hperm'.length_eq
  refine ⟨order.toList.take (trainSize size proportion),
    order.toList.drop (trainSize size proportion), ?_, ?_, ?_⟩
  · simp only [positions?, horder]
    rw [if_pos (hsize ▸ hle), List.splitAt_eq]
  · rwa [List.take_append_drop]
  · rw [List.length_take, Array.length_toList, hsize, Nat.min_eq_left hle]

/-- The sides of a split hold the samples at the positions that the stream of its seed leads to. -/
theorem positions_position {samples : List (Sample Float)} {proportion : Float} (seed : UInt64)
    (hle : trainSize samples.length proportion ≤ samples.length) {train test : List Nat}
    (h : positions? samples.length proportion
      ((Draws.ofSeed seed).position (samples.length - 1)) = some (train, test)) :
    (splitSamples samples proportion seed .train).map some = train.map (samples[·]?) ∧
      (splitSamples samples proportion seed .test).map some = test.map (samples[·]?) := by
  have hsamples : samples.map some = (List.range samples.length).map (samples[·]?) := by
    apply List.ext_getElem <;> simp
  have horder : ((Draws.ofSeed seed).shuffle samples).map some =
      ((Draws.ofSeed seed).shuffleFrom (Array.range samples.length) (samples.length - 1)).toList.map
        (samples[·]?) := by
    rw [← Draws.shuffle_map, hsamples, Draws.shuffle_map, Draws.shuffle, List.length_range,
      List.toArray_range]
  have hsize : ((Draws.ofSeed seed).shuffleFrom (Array.range samples.length)
      (samples.length - 1)).size = samples.length := by
    simpa using (Draws.shuffleFrom_perm (Draws.ofSeed seed) (Array.range samples.length)
      (samples.length - 1)).toList.length_eq
  simp only [positions?, Draws.exchanged_position _ (start_lt samples.length)] at h
  rw [if_pos (hsize.symm ▸ hle), List.splitAt_eq, Option.some.injEq, Prod.mk.injEq] at h
  obtain ⟨rfl, rfl⟩ := h
  simp only [splitSamples, List.map_take, List.map_drop, horder, and_self]

/-- A proportion between zero and one splits every source. -/
theorem split_of_isProportion (source : DataSource) {proportion : Float}
    (hpos : 0 < proportion) (hone : proportion < 1) (seed : UInt64) (part : Part) :
    ∃ side, source.split proportion seed part = .ok side ∧
      side.samples = splitSamples source.samples proportion seed part := by
  rw [split, if_pos (by simp [isProportion, hpos, hone])]
  exact ⟨_, rfl, rfl⟩

/-- With a proportion between zero and one, every position is on one side of a split exactly once,
whatever is drawn in range, the cut is at the whole part of the product and not beyond the end, and
the sides that a seed leads to hold the samples at such positions, which are all samples of the
source.  With any other proportion there is no split. -/
theorem split_partitions (source : DataSource) (proportion : Float) :
    (0 < proportion ∧ proportion < 1 →
      (∀ drawn : Nat → Nat, (∀ k, drawn k ≤ k) → ∃ train test,
        positions? source.samples.length proportion drawn = some (train, test) ∧
        (train ++ test).Perm (List.range source.samples.length) ∧
        train.length = trainSize source.samples.length proportion) ∧
      trainSize source.samples.length proportion ≤ source.samples.length ∧
      (source.samples.length < UInt64.size →
        (source.samples.length.toFloat * proportion).isFinite = true ∧
        Double.value (source.samples.length.toFloat * proportion) ≤ source.samples.length ∧
        (trainSize source.samples.length proportion : ℤ) =
          ⌊Double.value (source.samples.length.toFloat * proportion)⌋) ∧
      ∀ seed, (∀ k, (Draws.ofSeed seed).position (source.samples.length - 1) k ≤ k) ∧
        ∃ train test first second,
          positions? source.samples.length proportion
            ((Draws.ofSeed seed).position (source.samples.length - 1)) = some (train, test) ∧
          source.split proportion seed .train = .ok first ∧
          source.split proportion seed .test = .ok second ∧
          first.samples.map some = train.map (source.samples[·]?) ∧
          second.samples.map some = test.map (source.samples[·]?) ∧
          first.samples.length = trainSize source.samples.length proportion ∧
          (first.samples ++ second.samples).Perm source.samples) ∧
    (proportion.isNaN = true ∨ ¬(0 < proportion ∧ proportion < 1) → ∀ seed part,
      source.split proportion seed part = .error (.parameter (.proportion proportion))) := by
  constructor
  · rintro ⟨hpos, hone⟩
    have hle := trainSize_le hpos hone source.samples.length
    refine ⟨fun drawn hdrawn => exists_positions hdrawn hle, hle,
      trainSize_eq_floor hpos hone, fun seed => ?_⟩
    have hdrawn := Draws.position_le (Draws.ofSeed seed) (source.samples.length - 1)
    obtain ⟨train, test, hpositions, -, hlength⟩ := exists_positions hdrawn hle
    obtain ⟨first, hfirst, hfirstSamples⟩ := split_of_isProportion source hpos hone seed .train
    obtain ⟨second, hsecond, hsecondSamples⟩ := split_of_isProportion source hpos hone seed .test
    obtain ⟨htrain, htest⟩ := positions_position seed hle hpositions
    rw [← hfirstSamples] at htrain
    rw [← hsecondSamples] at htest
    refine ⟨hdrawn, train, test, first, second, hpositions, hfirst, hsecond, htrain, htest, ?_, ?_⟩
    · rw [← hlength]
      simpa using congrArg List.length htrain
    · rw [hfirstSamples, hsecondSamples]
      exact split_perm source.samples proportion seed
  · intro hout seed part
    have hnot : ¬(0 < proportion ∧ proportion < 1) := by
      rcases hout with hnan | hout
      · rintro ⟨hpos, -⟩
        rw [(Double.isNaN_of_le (Double.le_of_lt hpos)).2] at hnan
        exact absurd hnan (by decide)
      · exact hout
    rw [split, if_neg (by simpa [isProportion] using hnot)]

/-- Ten samples with one feature each. -/
def tenRows : DataSource :=
  .inMemory ["x"]
    ((List.range 10).map fun i => ⟨.ofEntries [(0, (i + 1).toFloat)], if i % 2 == 0 then 1 else -1⟩)
    "rows"

/-- Eight of ten samples are on the first side of a split at four fifths, and no number is no
proportion. -/
theorem split_tenRows :
    (∃ first second, tenRows.split 0.8 7 .train = .ok first ∧
      tenRows.split 0.8 7 .test = .ok second ∧ first.samples.length = 8 ∧
      (first.samples ++ second.samples).Perm tenRows.samples) ∧
    tenRows.split (0 / 0) 1 .train = .error (.parameter (.proportion (0 / 0))) := by
  have hsize : trainSize tenRows.samples.length 0.8 = 8 := by decide +kernel
  obtain ⟨-, -, -, hsplit⟩ := (split_partitions tenRows 0.8).1 (by decide +kernel)
  obtain ⟨-, -, -, first, second, -, hfirst, hsecond, -, -, hlength, hperm⟩ := hsplit 7
  exact ⟨⟨first, second, hfirst, hsecond, hlength.trans hsize, hperm⟩,
    (split_partitions tenRows (0 / 0)).2 (.inl (by decide +kernel)) 1 .train⟩

end DataSource
end Retrace
