import Mathlib.Algebra.BigOperators.Intervals
import Mathlib.Data.List.DropRight
import Retrace.Proofs.CacheSizes

/-!
# What a kernel matrix remembers

A kernel matrix with room for `k` values remembers the `k` places that were asked for last.  Its two
tables stand for a list of places, the one that was asked for last first: a request takes its place
to the front, and what then exceeds the room is dropped at the end.  In this list a place stands
behind exactly the different places that were asked for since, so it is found if these are fewer
than `k`.

Main results:

- Theorem `Recency.mem_take_recent`: what is among the most recent things.
- Theorem `Recalls.request`: a request takes its place to the front of the list.
- Theorem `recalls_after`: after any requests the most recent places are remembered.
- Theorem `exact_recency`: which requests find a remembered value, and what is counted.
-/

namespace Retrace

/-! ## Things by their last request -/

namespace Recency

variable {β : Type} [BEq β]

/-- The things that were asked for, without repetition and the one that was asked for last first. -/
def recent (requests : List β) : List β :=
  requests.foldl (fun seen p => p :: seen.erase p) []

/-- A request brings its place to the front. -/
theorem recent_concat (requests : List β) (p : β) :
    recent (requests ++ [p]) = p :: (recent requests).erase p := by
  simp [recent]

variable [LawfulBEq β]

theorem nodup_recent (requests : List β) : (recent requests).Nodup := by
  induction requests using List.reverseRecOn with
  | nil => exact List.nodup_nil
  | append_singleton requests p ih =>
      rw [recent_concat, List.nodup_cons]
      exact ⟨ih.not_mem_erase, ih.erase p⟩

/-- The places are those that were asked for. -/
theorem mem_recent {requests : List β} {p : β} : p ∈ recent requests ↔ p ∈ requests := by
  induction requests using List.reverseRecOn with
  | nil => rfl
  | append_singleton requests q ih =>
      rw [recent_concat, List.mem_cons, (nodup_recent requests).mem_erase_iff, ih, List.mem_append,
        List.mem_singleton]
      by_cases h : p = q <;> simp [h]

/-- What stands beyond the first places does not matter to a request. -/
theorem take_erase (p : β) (l : List β) (k : Nat) :
    ((l.take (k + 1)).erase p).take k = (l.erase p).take k := by
  induction l generalizing k with
  | nil => rfl
  | cons q l ih =>
      rw [List.take_succ_cons]
      by_cases hq : q = p
      · simp [hq, List.take_take]
      · rw [List.erase_cons_tail (by simpa using hq), List.erase_cons_tail (by simpa using hq)]
        cases k with
        | zero => rfl
        | succ k => rw [List.take_succ_cons, List.take_succ_cons, ih]

/-- A request takes its thing to the front of the most recent ones, of which the last one is dropped
if they become too many. -/
theorem take_recent_concat (requests : List β) (p : β) {k : Nat} (hk : 0 < k) :
    (recent (requests ++ [p])).take k =
      p :: (((recent requests).take k).erase p).take (k - 1) := by
  obtain ⟨k, rfl⟩ := Nat.exists_eq_succ_of_ne_zero hk.ne'
  rw [recent_concat, List.take_succ_cons, Nat.succ_sub_one, take_erase]

/-- Without its last entry a list loses its end. -/
theorem erase_getLast {l : List β} (hnodup : l.Nodup) (hne : l ≠ []) :
    l.erase (l.getLast hne) = l.dropLast := by
  obtain ⟨front, last, rfl⟩ := (List.eq_nil_or_concat l).resolve_left hne
  rw [List.concat_eq_append, List.nodup_append] at hnodup
  have hnot : last ∉ front := fun hmem => hnodup.2.2 _ hmem _ (List.mem_singleton_self _) rfl
  simp [List.erase_append_right _ hnot]

variable [DecidableEq β]

/-- The requests after the last one for a thing. -/
def since (p : β) (requests : List β) : List β :=
  requests.rtakeWhile fun q => q ≠ p

/-- There are as many places as were asked for. -/
theorem length_recent (requests : List β) :
    (recent requests).length = requests.toFinset.card := by
  rw [← List.toFinset_card_of_nodup (nodup_recent requests)]
  congr 1
  ext p
  rw [List.mem_toFinset, List.mem_toFinset, mem_recent]

/-- Before a thing stand the things that were asked for since. -/
theorem toFinset_takeWhile_recent (p : β) (requests : List β) :
    ((recent requests).takeWhile fun q => q ≠ p).toFinset = (since p requests).toFinset := by
  induction requests using List.reverseRecOn with
  | nil => rfl
  | append_singleton requests q ih =>
      rw [recent_concat, since, List.rtakeWhile_concat]
      by_cases hq : q = p
      · simp [hq]
      · -- until `p` is met it does not matter that `q` was taken out of its former place
        have hsame : (fun r => !(r != q) || decide (r ≠ p)) = fun r => decide (r ≠ p) := by
          funext r
          by_cases hr : r = q <;> simp [hr, hq]
        rw [List.takeWhile_cons_of_pos (by simpa using hq), if_pos (by simpa using hq),
          (nodup_recent requests).erase_eq_filter, List.takeWhile_filter, hsame,
          List.toFinset_cons, List.toFinset_filter, ih, List.toFinset_append]
        ext r
        by_cases hr : r = q <;> simp [hr, since]

/-- A place stands behind those that are not it. -/
theorem idxOf_eq_length_takeWhile (p : β) (l : List β) :
    l.idxOf p = (l.takeWhile fun q => q ≠ p).length := by
  induction l with
  | nil => rfl
  | cons q l ih =>
      by_cases hq : q = p
      · simp [hq]
      · simp [List.idxOf_cons_ne l hq, ih, hq]

/-- The place of a thing is the number of different things that were asked for since. -/
theorem idxOf_recent (p : β) (requests : List β) :
    (recent requests).idxOf p = (since p requests).toFinset.card := by
  rw [idxOf_eq_length_takeWhile, ← toFinset_takeWhile_recent, List.toFinset_card_of_nodup]
  exact (nodup_recent requests).sublist (List.takeWhile_sublist _)

/-- A thing is among the most recent ones exactly if it was asked for and fewer others have been
asked for since. -/
theorem mem_take_recent {p : β} {requests : List β} {k : Nat} :
    p ∈ (recent requests).take k ↔ p ∈ requests ∧ (since p requests).toFinset.card < k := by
  by_cases hp : p ∈ requests
  · rw [List.mem_take_iff_idxOf_lt (mem_recent.2 hp), idxOf_recent]
    simp [hp]
  · exact ⟨fun h => absurd (mem_recent.1 (List.mem_of_mem_take h)) hp, fun h => absurd h.1 hp⟩

end Recency

/-! ## What a matrix remembers -/

namespace KernelMatrix

variable {α : Type}

theorem counts_makeRoom (m : KernelMatrix α) :
    m.makeRoom.hits = m.hits ∧ m.makeRoom.misses = m.misses := by
  rcases m.makeRoom_cases with hm | ⟨_, _, _, hm⟩ <;> rw [hm] <;> exact ⟨rfl, rfl⟩

/-- What a request does: it finds a remembered value, or computes a value and remembers it, or finds
no value. -/
theorem request_cases (entry : Nat × Nat → Option α) (i j : Nat) (m : KernelMatrix α) :
    (∃ value number, m.entries[place i j]? = some (value, number) ∧
      m.request entry i j =
        (some value, { (m.forget (place i j) number).remember (place i j) value with
          hits := m.hits + 1 })) ∨
    (∃ value, m.entries[place i j]? = none ∧ entry (place i j) = some value ∧
      m.request entry i j =
        (some value, { m.makeRoom.remember (place i j) value with misses := m.misses + 1 })) ∨
    (m.entries[place i j]? = none ∧ entry (place i j) = none ∧
      m.request entry i j = (none, { m with misses := m.misses + 1 })) := by
  cases hfound : m.entries[place i j]? with
  | some found => exact .inl ⟨found.1, found.2, rfl, by simp [KernelMatrix.request, hfound]; rfl⟩
  | none =>
      cases hvalue : entry (place i j) with
      | some value =>
          refine .inr (.inl ⟨value, rfl, rfl, ?_⟩)
          simp [KernelMatrix.request, hfound, hvalue, remember, counts_makeRoom]
      | none => exact .inr (.inr ⟨rfl, rfl, by simp [KernelMatrix.request, hfound, hvalue]⟩)

/-- Whether the places of the remembered values are those of a list in which a place stands before
all that were asked for earlier. -/
structure Recalls (m : KernelMatrix α) (l : List (Nat × Nat)) : Prop where
  mem_iff : ∀ p, p ∈ l ↔ p ∈ m.entries
  newer : l.Pairwise fun p q => ∀ s t : Nat, m.order[s]? = some p → m.order[t]? = some q → t < s

theorem recalls_ofSize (size capacity : Nat) :
    (ofSize size capacity : KernelMatrix α).Recalls [] := by
  constructor <;> simp [ofSize]

/-- A place has one number. -/
theorem Coherent.number_unique {bound s t : Nat} {m : KernelMatrix α} {p : Nat × Nat}
    (h : m.Coherent bound) (hs : m.order[s]? = some p) (ht : m.order[t]? = some p) : s = t := by
  obtain ⟨a, ha⟩ := (h.place_iff s p).1 hs
  obtain ⟨b, hb⟩ := (h.place_iff t p).1 ht
  rw [ha, Option.some.injEq, Prod.mk.injEq] at hb
  exact hb.2

namespace Recalls

variable {m : KernelMatrix α} {l : List (Nat × Nat)} {p : Nat × Nat}

/-- The places that are recalled are those with values. -/
theorem mem_iff_isSome (h : m.Recalls l) : p ∈ l ↔ m.entries[p]?.isSome :=
  (h.mem_iff p).trans Std.HashMap.isSome_getElem?_iff_mem.symm

/-- A remembered place has the number of its last request. -/
theorem exists_number {bound : Nat} (h : m.Recalls l) (hc : m.Coherent bound) (hp : p ∈ l) :
    ∃ number : Nat, m.order[number]? = some p := by
  obtain ⟨⟨value, number⟩, hvalue⟩ := Option.isSome_iff_exists.1 (h.mem_iff_isSome.1 hp)
  exact ⟨number, (hc.place_iff number p).2 ⟨value, hvalue⟩⟩

theorem mem_of_order {bound number : Nat} (h : m.Recalls l) (hc : m.Coherent bound)
    (hp : m.order[number]? = some p) : p ∈ l := by
  obtain ⟨value, hvalue⟩ := (hc.place_iff number p).1 hp
  simp [h.mem_iff_isSome, hvalue]

theorem nodup {bound : Nat} (h : m.Recalls l) (hc : m.Coherent bound) : l.Nodup := by
  refine List.Pairwise.imp_of_mem (fun hp _ hnewer heq => ?_) h.newer
  obtain ⟨number, hnumber⟩ := h.exists_number hc hp
  exact Nat.lt_irrefl number (hnewer number number hnumber (heq ▸ hnumber))

/-- As many places are recalled as values are remembered. -/
theorem length_eq {bound : Nat} (h : m.Recalls l) (hc : m.Coherent bound) :
    m.length = l.length := by
  have hperm : m.entries.keys.Perm l := by
    rw [List.perm_ext_iff_of_nodup Std.HashMap.nodup_keys (h.nodup hc)]
    intro p
    rw [Std.HashMap.mem_keys, h.mem_iff]
  rw [← hperm.length_eq, Std.HashMap.length_keys]
  rfl

/-- A value that is forgotten leaves the list. -/
theorem forget {bound : Nat} (h : m.Recalls l) (hc : m.Coherent bound) (number : Nat) :
    (m.forget p number).Recalls (l.erase p) := by
  constructor
  · intro q
    rw [(h.nodup hc).mem_erase_iff, h.mem_iff, KernelMatrix.forget, Std.HashMap.mem_erase,
      beq_eq_false_iff_ne, ne_comm]
  · refine (h.newer.sublist List.erase_sublist).imp fun hnewer s t hs ht => ?_
    simp only [KernelMatrix.forget, Std.TreeMap.getElem?_erase] at hs ht
    grind

/-- A value that is newly remembered stands in front. -/
theorem remember (h : m.Recalls l) (hc : m.Coherent m.requests) (hp : p ∉ l) (value : α) :
    (m.remember p value).Recalls (p :: l) := by
  have hnot : ∀ s : Nat, m.order[s]? ≠ some p := by
    intro s hs
    exact hp (h.mem_of_order hc hs)
  have horder : ∀ (s : Nat) q, (m.remember p value).order[s]? = some q →
      (s = m.requests ∧ q = p) ∨ m.order[s]? = some q := by
    intro s q hs
    simp only [KernelMatrix.remember, Std.TreeMap.getElem?_insert, Nat.compare_eq_eq] at hs
    grind
  constructor
  · intro q
    rw [List.mem_cons, h.mem_iff, KernelMatrix.remember, Std.HashMap.mem_insert, beq_iff_eq,
      eq_comm]
  · rw [List.pairwise_cons]
    constructor
    · intro q hq s t hs ht
      have := hc.number_lt t q
      grind
    · refine List.Pairwise.imp_of_mem (fun hq hr hnewer s t hs ht => ?_) h.newer
      grind

/-- What was asked for longest ago stands last. -/
theorem oldest {bound : Nat} (h : m.Recalls l) (hc : m.Coherent bound) (hne : l ≠ []) :
    ∃ number, m.oldest? = some (number, l.getLast hne) := by
  obtain ⟨number, hnumber⟩ := h.exists_number hc (List.getLast_mem hne)
  have hleast : m.order.minKey? = some number := by
    rw [Std.TreeMap.minKey?_eq_some_iff_mem_and_forall, ← Std.TreeMap.isSome_getElem?_iff_mem,
      hnumber]
    refine ⟨rfl, fun other hother => ?_⟩
    obtain ⟨p, hp⟩ := Option.isSome_iff_exists.1 (Std.TreeMap.isSome_getElem?_iff_mem.2 hother)
    have hmem : p ∈ l.dropLast ++ [l.getLast hne] := by
      rw [List.dropLast_append_getLast hne]
      exact h.mem_of_order hc hp
    have hnewer := h.newer
    rw [← List.dropLast_append_getLast hne, List.pairwise_append] at hnewer
    rw [Nat.isLE_compare]
    rcases List.mem_append.1 hmem with hfront | hlast
    · exact (hnewer.2.2 p hfront _ (List.mem_singleton_self _) other number hp hnumber).le
    · rw [List.mem_singleton.1 hlast] at hp
      exact (hc.number_unique hnumber hp).le
  refine ⟨number, ?_⟩
  rw [oldest?, hleast, Option.bind_some, hnumber]
  rfl

/-- Making room drops what was asked for longest ago if the memory is full. -/
theorem makeRoom {bound : Nat} (h : m.Recalls l) (hc : m.Coherent bound) (hpos : 0 < m.capacity)
    (hle : l.length ≤ m.capacity) : m.makeRoom.Recalls (l.take (m.capacity - 1)) := by
  have hlength := h.length_eq hc
  unfold KernelMatrix.makeRoom
  split
  · rw [List.take_of_length_le (by omega)]
    exact h
  · have hne : l ≠ [] := by
      rintro rfl
      rw [List.length_nil] at hlength
      omega
    obtain ⟨number, hnumber⟩ := h.oldest hc hne
    have herase : l.erase (l.getLast hne) = l.take (m.capacity - 1) := by
      have hfull : m.capacity - 1 = l.length - 1 := by omega
      rw [hfull, ← List.dropLast_eq_take]
      exact Recency.erase_getLast (h.nodup hc) hne
    rw [hnumber, ← herase]
    exact h.forget hc number

/-- Answering a request takes its place to the front and drops what is too much. -/
theorem request {entry : Nat × Nat → Option α} {i j : Nat} (h : m.Recalls l)
    (hc : m.Coherent m.requests) (hpos : 0 < m.capacity) (hle : l.length ≤ m.capacity)
    (hentry : (entry (place i j)).isSome) :
    (m.request entry i j).2.Recalls
      (place i j :: (l.erase (place i j)).take (m.capacity - 1)) := by
  rcases m.request_cases entry i j with
    ⟨value, number, hfound, heq⟩ | ⟨value, hfound, -, heq⟩ | ⟨-, hnone, -⟩
  · have hmem : place i j ∈ l := by simp [h.mem_iff_isSome, hfound]
    have hnext := (h.forget (p := place i j) hc number).remember (hc.forget hfound)
      (h.nodup hc).not_mem_erase value
    have hlength : (l.erase (place i j)).length ≤ m.capacity - 1 := by
      rw [List.length_erase_of_mem hmem]
      omega
    rw [List.take_of_length_le hlength, heq]
    exact ⟨hnext.mem_iff, hnext.newer⟩
  · have hnot : place i j ∉ l := by simp [h.mem_iff_isSome, hfound]
    have hroom := hc.makeRoom
    rw [← m.requests_makeRoom] at hroom
    have hnext := (h.makeRoom hc hpos hle).remember hroom
      (fun hmem => hnot (List.mem_of_mem_take hmem)) value
    rw [List.erase_of_not_mem hnot, heq]
    exact ⟨hnext.mem_iff, hnext.newer⟩
  · simp [hnone] at hentry

end Recalls

/-! ## Counting -/

section

variable (entry : Nat × Nat → Option α) (i j : Nat) (m : KernelMatrix α)

/-- A request counts as a hit exactly if the value of its place is remembered. -/
theorem counts_request :
    if place i j ∈ m.entries then
      (m.request entry i j).2.hits = m.hits + 1 ∧ (m.request entry i j).2.misses = m.misses
    else
      (m.request entry i j).2.hits = m.hits ∧
        (m.request entry i j).2.misses = m.misses + 1 := by
  have hmem : place i j ∈ m.entries ↔ m.entries[place i j]?.isSome :=
    Std.HashMap.isSome_getElem?_iff_mem.symm
  rcases m.request_cases entry i j with
    ⟨value, number, hfound, heq⟩ | ⟨value, hfound, -, heq⟩ | ⟨hfound, -, heq⟩
  · rw [if_pos (by simp [hmem, hfound]), heq]
    exact ⟨rfl, rfl⟩
  · rw [if_neg (by simp [hmem, hfound]), heq]
    exact ⟨m.counts_makeRoom.1, rfl⟩
  · rw [if_neg (by simp [hmem, hfound]), heq]
    exact ⟨rfl, rfl⟩

theorem requests_request : (m.request entry i j).2.requests = m.requests + 1 := by
  have hcounts := m.counts_request entry i j
  unfold requests
  split at hcounts <;> omega

theorem capacity_request : (m.request entry i j).2.capacity = m.capacity := by
  rcases m.request_cases entry i j with
    ⟨value, number, -, heq⟩ | ⟨value, -, -, heq⟩ | ⟨-, -, heq⟩ <;> rw [heq]
  · rfl
  · exact m.capacity_makeRoom

end

/-! ## Runs -/

/-- The memory after some requests. -/
def after (entry : Nat × Nat → Option α) (calls : List (Nat × Nat)) (m : KernelMatrix α) :
    KernelMatrix α :=
  calls.foldl (fun m c => (m.request entry c.1 c.2).2) m

/-- The places of some requests. -/
def places (calls : List (Nat × Nat)) : List (Nat × Nat) :=
  calls.map fun c => place c.1 c.2

theorem after_concat (entry : Nat × Nat → Option α) (calls : List (Nat × Nat)) (c : Nat × Nat)
    (m : KernelMatrix α) :
    m.after entry (calls ++ [c]) = ((m.after entry calls).request entry c.1 c.2).2 := by
  simp [after]

/-- The place of one more request follows. -/
theorem places_concat (calls : List (Nat × Nat)) (c : Nat × Nat) :
    places (calls ++ [c]) = places calls ++ [place c.1 c.2] := by
  simp [places]

section

variable {entry : Nat × Nat → Option α} {calls : List (Nat × Nat)} (size capacity : Nat)

/-- After any requests what is remembered was computed. -/
theorem faithful_after (entry : Nat × Nat → Option α) (calls : List (Nat × Nat)) :
    ((ofSize size capacity).after entry calls).Faithful entry := by
  induction calls using List.reverseRecOn with
  | nil => exact faithful_ofSize entry size capacity
  | append_singleton calls c ih =>
      rw [after_concat]
      exact remembered_request c.1 c.2 ih

/-- After any requests the two tables tell the same. -/
theorem coherent_after (entry : Nat × Nat → Option α) (calls : List (Nat × Nat)) :
    ((ofSize size capacity).after entry calls).Coherent
      ((ofSize size capacity).after entry calls).requests := by
  induction calls using List.reverseRecOn with
  | nil => exact coherent_ofSize size capacity
  | append_singleton calls c ih =>
      rw [after_concat]
      exact coherent_request entry c.1 c.2 ih

/-- After any requests the capacity is the one from the start. -/
theorem capacity_after (entry : Nat × Nat → Option α) (calls : List (Nat × Nat)) :
    ((ofSize size capacity).after entry calls).capacity =
      max 1 (min capacity (size * (size + 1) / 2)) := by
  induction calls using List.reverseRecOn with
  | nil => rfl
  | append_singleton calls c ih => rw [after_concat, capacity_request, ih]

/-- Every request is counted. -/
theorem requests_after (entry : Nat × Nat → Option α) (calls : List (Nat × Nat)) :
    ((ofSize size capacity).after entry calls).requests = calls.length := by
  induction calls using List.reverseRecOn with
  | nil => rfl
  | append_singleton calls c ih => rw [after_concat, requests_request, ih, List.length_append]; rfl

/-- The most recent places are remembered, as many as there is room for. -/
theorem recalls_after (h : ∀ c ∈ calls, (entry (place c.1 c.2)).isSome) :
    ((ofSize size capacity).after entry calls).Recalls
      ((Recency.recent (places calls)).take (max 1 (min capacity (size * (size + 1) / 2)))) := by
  induction calls using List.reverseRecOn with
  | nil =>
      rw [places, List.map_nil, Recency.recent, List.foldl_nil, List.take_nil]
      exact recalls_ofSize size capacity
  | append_singleton calls c ih =>
      rw [List.forall_mem_append] at h
      have hcapacity := capacity_after size capacity entry calls
      rw [after_concat, places_concat, Recency.take_recent_concat _ _ (by omega), ← hcapacity]
      apply Recalls.request
      · rw [hcapacity]
        exact ih h.1
      · exact coherent_after size capacity entry calls
      · omega
      · rw [hcapacity]
        exact List.length_take_le _ _
      · exact h.2 c (List.mem_singleton_self c)

end

/-! ## Pairs of samples -/

/-- There are no more places than pairs of samples. -/
theorem card_places_le {calls : List (Nat × Nat)} {size : Nat}
    (h : ∀ c ∈ calls, c.1 < size ∧ c.2 < size) :
    (places calls).toFinset.card ≤ size * (size + 1) / 2 := by
  have hsigma : ((Finset.range size).sigma fun j => Finset.range (j + 1)).card =
      size * (size + 1) / 2 := by
    have hshift : ∑ j ∈ Finset.range size, (j + 1) = ∑ j ∈ Finset.range (size + 1), j := by
      rw [Finset.sum_range_succ']
      rfl
    simp only [Finset.card_sigma, Finset.card_range]
    rw [hshift, Finset.sum_range_id, Nat.add_sub_cancel, Nat.mul_comm]
  rw [← hsigma]
  refine Finset.card_le_card_of_injOn (fun p => ⟨p.2, p.1⟩) ?_ ?_
  · intro p hp
    simp only [places, List.coe_toFinset, List.mem_map, Set.mem_ofPred_eq] at hp
    obtain ⟨c, hc, rfl⟩ := hp
    have := h c hc
    simp [place]
    omega
  · intro p _ q _ heq
    simp at heq
    exact Prod.ext heq.2 heq.1

/-- With room for all pairs of samples, every value is computed once. -/
theorem misses_after {entry : Nat × Nat → Option α} {calls : List (Nat × Nat)}
    {size capacity : Nat} (hrange : ∀ c ∈ calls, c.1 < size ∧ c.2 < size)
    (hentry : ∀ c ∈ calls, (entry (place c.1 c.2)).isSome)
    (hroom : size * (size + 1) / 2 ≤ capacity) :
    ((ofSize size capacity).after entry calls).misses = (places calls).toFinset.card := by
  induction calls using List.reverseRecOn with
  | nil => rfl
  | append_singleton calls c ih =>
      rw [List.forall_mem_append] at hrange hentry
      have hle := card_places_le hrange.1
      have hrecalls := recalls_after size capacity hentry.1
      rw [List.take_of_length_le (by rw [Recency.length_recent]; omega)] at hrecalls
      have hmem := (hrecalls.mem_iff (place c.1 c.2)).symm.trans Recency.mem_recent
      have hcounts := counts_request entry c.1 c.2 ((ofSize size capacity).after entry calls)
      rw [after_concat, places_concat, List.toFinset_append, List.toFinset_cons,
        List.toFinset_nil, insert_empty_eq, Finset.union_singleton]
      by_cases hseen : place c.1 c.2 ∈ places calls
      · rw [if_pos (hmem.2 hseen)] at hcounts
        rw [hcounts.2, ih hrange.1 hentry.1,
          Finset.insert_eq_of_mem (List.mem_toFinset.2 hseen)]
      · rw [if_neg fun h => hseen (hmem.1 h)] at hcounts
        rw [hcounts.2, ih hrange.1 hentry.1,
          Finset.card_insert_of_notMem fun h => hseen (List.mem_toFinset.1 h)]

section

variable {samples : Array (Sample α)} {value? : SparseVector α → SparseVector α → Option α}
  {value : SparseVector α → SparseVector α → α}

/-- A kernel that has a value for any two samples has one at every place in range. -/
theorem exists_pairEntry
    (hvalue : ∀ x ∈ samples, ∀ y ∈ samples,
      value? x.features y.features = some (value x.features y.features))
    {i j : Nat} (hi : i < samples.size) (hj : j < samples.size) :
    ∃ x y, samples[min i j]? = some x ∧ samples[max i j]? = some y ∧
      Smo.pairEntry value? samples (place i j) = some (value x.features y.features) := by
  have hmin : min i j < samples.size := by omega
  have hmax : max i j < samples.size := by omega
  refine ⟨samples[min i j], samples[max i j], Array.getElem?_eq_getElem hmin,
    Array.getElem?_eq_getElem hmax, ?_⟩
  unfold Smo.pairEntry place
  rw [Array.getElem?_eq_getElem hmin, Array.getElem?_eq_getElem hmax]
  exact hvalue _ (Array.getElem_mem hmin) _ (Array.getElem_mem hmax)

/-- After any requests a kernel matrix answers a request with the value of the kernel.  It finds the
value remembered exactly if the pair was asked for before and fewer other pairs than it has room for
have been asked for since; it counts every request, and it remembers as many of the pairs as it has
room for.  With room for all pairs it computes each value once. -/
theorem exact_recency
    (hvalue : ∀ x ∈ samples, ∀ y ∈ samples,
      value? x.features y.features = some (value x.features y.features))
    (capacity : Nat) {calls : List (Nat × Nat)}
    (hcalls : ∀ c ∈ calls, c.1 < samples.size ∧ c.2 < samples.size) {i j : Nat}
    (hi : i < samples.size) (hj : j < samples.size) :
    let entry := Smo.pairEntry value? samples
    let pairs := samples.size * (samples.size + 1) / 2
    let room := max 1 (min capacity pairs)
    let m := (ofSize samples.size capacity).after entry calls
    let next := m.request entry i j
    (∃ x y, samples[min i j]? = some x ∧ samples[max i j]? = some y ∧
      next.1 = some (value x.features y.features)) ∧
    (if place i j ∈ places calls ∧
        (Recency.since (place i j) (places calls)).toFinset.card < room then
      next.2.hits = m.hits + 1 ∧ next.2.misses = m.misses
    else
      next.2.hits = m.hits ∧ next.2.misses = m.misses + 1) ∧
    m.hits + m.misses = calls.length ∧
    m.length = min room (places calls).toFinset.card ∧
    (pairs ≤ capacity → m.misses = (places calls).toFinset.card) := by
  intro entry pairs room m next
  have hentry : ∀ c ∈ calls, (entry (place c.1 c.2)).isSome := by
    intro c hc
    obtain ⟨x, y, -, -, hxy⟩ := exists_pairEntry hvalue (hcalls c hc).1 (hcalls c hc).2
    exact Option.isSome_iff_exists.2 ⟨_, hxy⟩
  have hrecalls : m.Recalls ((Recency.recent (places calls)).take room) :=
    recalls_after samples.size capacity hentry
  refine ⟨?_, ?_, requests_after samples.size capacity entry calls, ?_, ?_⟩
  · obtain ⟨x, y, hx, hy, hxy⟩ := exists_pairEntry hvalue hi hj
    have hanswer := (faithful_after samples.size capacity entry calls).fst_request i j
    exact ⟨x, y, hx, hy, hanswer.trans hxy⟩
  · have hcounts := m.counts_request entry i j
    have hmem := (hrecalls.mem_iff (place i j)).symm.trans Recency.mem_take_recent
    simpa only [hmem] using hcounts
  · rw [hrecalls.length_eq (coherent_after samples.size capacity entry calls), List.length_take,
      Recency.length_recent]
  · exact misses_after hcalls hentry

end

/-- Three samples in a plane. -/
def corner : Array (Sample Float) :=
  #[⟨⟨[0], [1]⟩, 1⟩, ⟨⟨[0, 1], [2, 1]⟩, -1⟩, ⟨⟨[1], [3]⟩, 1⟩]

/-- With room for two values, the value of the last sample with itself is computed anew when two
other pairs have been asked for since, one of them in both orders; the last pair is remembered. -/
theorem exact_recency_corner :
    (∀ x ∈ corner, ∀ y ∈ corner,
      Kernel.linear.value? x.features y.features = some (x.features.dot y.features)) ∧
    (∀ c ∈ [(0, 1), (2, 2), (1, 0), (0, 1), (0, 0)], c.1 < corner.size ∧ c.2 < corner.size) ∧
    let entry := Smo.pairEntry Kernel.linear.value? corner
    let m := (ofSize corner.size 2).after entry [(0, 1), (2, 2), (1, 0), (0, 1), (0, 0)]
    m.length = 2 ∧ (m.request entry 2 2).2.misses = m.misses + 1 ∧
      (m.request entry 1 0).2.hits = m.hits + 1 := by
  have hvalue : ∀ x ∈ corner, ∀ y ∈ corner,
      Kernel.linear.value? x.features y.features = some (x.features.dot y.features) :=
    fun _ _ _ _ => rfl
  have hcalls : ∀ c ∈ [(0, 1), (2, 2), (1, 0), (0, 1), (0, 0)],
      c.1 < corner.size ∧ c.2 < corner.size := by decide
  obtain ⟨-, hmiss, -, hlength, -⟩ :=
    exact_recency hvalue 2 hcalls (i := 2) (j := 2) (by decide) (by decide)
  obtain ⟨-, hhit, -⟩ := exact_recency hvalue 2 hcalls (i := 1) (j := 0) (by decide) (by decide)
  rw [if_neg (by decide)] at hmiss
  rw [if_pos (by decide)] at hhit
  exact ⟨hvalue, hcalls, hlength, hmiss.2, hhit.1⟩

end KernelMatrix
end Retrace
