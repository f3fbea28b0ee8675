import Retrace.Scalar
import Std.Data.HashMap.Lemmas
import Std.Data.TreeMap.Lemmas

/-!
# Kernel matrices with a memory

The kernel values of a list of samples, computed when they are asked for and remembered in a memory
of bounded size that forgets what was asked for longest ago.  Kernels are symmetric, so a value is
remembered once for both orders of its two samples.

The requests are numbered.  One table finds a remembered value by its place, together with the
number of the last request for it; the other one finds the place by that number, so that the least
number is the place to forget.

Main results:

- Theorem `coherent_request`: the two tables always tell the same.
- Theorem `length_request_le`: the memory never holds more than its capacity.
- Theorem `remembered_request`: what is remembered was computed.
-/

namespace Retrace

/-- Kernel values that were asked for, and when this was. -/
structure KernelMatrix (α : Type) where
  size : Nat
  capacity : Nat
  /-- the remembered values with the numbers of the last requests for them -/
  entries : Std.HashMap (Nat × Nat) (α × Nat)
  /-- the places of the remembered values by these numbers -/
  order : Std.TreeMap Nat (Nat × Nat)
  -- counters of 64 bits are modelled by numbers without a bound: either one would start anew only
  -- after 2^64 requests, which at one a nanosecond take more than five hundred years
  hits : Nat
  misses : Nat

namespace KernelMatrix

variable {α : Type}

/-- An empty memory for the values of so many samples; its capacity is at least one and never more
than the number of pairs. -/
def ofSize (size capacity : Nat) : KernelMatrix α :=
  ⟨size, max 1 (min capacity (size * (size + 1) / 2)), ∅, ∅, 0, 0⟩

/-- The place of a value, the lesser sample first. -/
def place (i j : Nat) : Nat × Nat :=
  (min i j, max i j)

/-- How many requests there were. -/
def requests (m : KernelMatrix α) : Nat :=
  m.hits + m.misses

/-- How many values are remembered. -/
def length (m : KernelMatrix α) : Nat :=
  m.entries.size

/-- The remembered value of a place. -/
def find? (m : KernelMatrix α) (p : Nat × Nat) : Option α :=
  m.entries[p]?.map Prod.fst

/-- Forget the value of a place, the last request for it having this number. -/
def forget (p : Nat × Nat) (number : Nat) (m : KernelMatrix α) : KernelMatrix α :=
  { m with
    entries := m.entries.erase p
    order := m.order.erase number }

/-- The place that was asked for longest ago, with the number of that request. -/
def oldest? (m : KernelMatrix α) : Option (Nat × (Nat × Nat)) :=
  m.order.minKey?.bind fun number => m.order[number]?.map fun p => (number, p)

/-- Forget what was asked for longest ago, if the memory is full. -/
def makeRoom (m : KernelMatrix α) : KernelMatrix α :=
  if m.length < m.capacity then m
  else
    match m.oldest? with
    | some (number, p) => m.forget p number
    | none => m

/-- Remember a value that the next request asks for. -/
def remember (p : Nat × Nat) (value : α) (m : KernelMatrix α) : KernelMatrix α :=
  let number := m.requests
  { m with
    entries := m.entries.insert p (value, number)
    order := m.order.insert number p }

/-- Ask for a value.  A remembered value becomes the most recent; another is computed and
remembered, and nothing comes out if it cannot be computed. -/
def request (entry : Nat × Nat → Option α) (i j : Nat) (m : KernelMatrix α) :
    Option α × KernelMatrix α :=
  let p := place i j
  match m.entries[p]? with
  | some (value, number) =>
      let m := (m.forget p number).remember p value
      (some value, { m with hits := m.hits + 1 })
  | none =>
      match entry p with
      | some value =>
          let m := m.makeRoom.remember p value
          (some value, { m with misses := m.misses + 1 })
      | none => (none, { m with misses := m.misses + 1 })

/-- The part of the requests that found a remembered value. -/
def hitRate (m : KernelMatrix α) : Float :=
  if m.requests = 0 then 0 else m.hits.toFloat / m.requests.toFloat

/-! ## Laws -/

/-- Whether the two tables tell the same, all numbers being below a bound. -/
structure Coherent (bound : Nat) (m : KernelMatrix α) : Prop where
  /-- a number leads to a place exactly if the value of that place has this number -/
  place_iff : ∀ (number : Nat) (p : Nat × Nat),
    m.order[number]? = some p ↔ ∃ value : α, m.entries[p]? = some (value, number)
  size_eq : m.order.size = m.entries.size
  number_lt : ∀ (number : Nat) (p : Nat × Nat), m.order[number]? = some p → number < bound

theorem coherent_ofSize (size capacity : Nat) :
    (ofSize size capacity : KernelMatrix α).Coherent 0 := by
  constructor <;> simp [ofSize]

/-- Numbers below a bound are below a greater one. -/
theorem Coherent.mono {a b : Nat} {m : KernelMatrix α} (h : m.Coherent a) (hab : a ≤ b) :
    m.Coherent b :=
  ⟨h.place_iff, h.size_eq, fun number p hp => Nat.lt_of_lt_of_le (h.number_lt number p hp) hab⟩

/-- Forgetting a value in both tables keeps them coherent. -/
theorem Coherent.forget {bound : Nat} {m : KernelMatrix α} {p : Nat × Nat} {value : α}
    {number : Nat} (h : m.Coherent bound) (hp : m.entries[p]? = some (value, number)) :
    (m.forget p number).Coherent bound := by
  have hnumber : m.order[number]? = some p := (h.place_iff number p).2 ⟨value, hp⟩
  constructor
  · intro t q
    simp only [KernelMatrix.forget, Std.TreeMap.getElem?_erase, Std.HashMap.getElem?_erase,
      Nat.compare_eq_eq, beq_iff_eq]
    have := h.place_iff t q
    have := h.place_iff number q
    grind
  · have hin : number ∈ m.order := by
      rw [← Std.TreeMap.isSome_getElem?_iff_mem, hnumber]
      rfl
    have hin' : p ∈ m.entries := by
      rw [← Std.HashMap.isSome_getElem?_iff_mem, hp]
      rfl
    simp [KernelMatrix.forget, Std.TreeMap.size_erase, Std.HashMap.size_erase, hin, hin',
      h.size_eq]
  · intro t q
    simp only [KernelMatrix.forget, Std.TreeMap.getElem?_erase]
    split
    · simp
    · exact h.number_lt t q

/-- Remembering a value with the next number keeps the tables coherent. -/
theorem Coherent.remember {m : KernelMatrix α} {p : Nat × Nat} (value : α)
    (h : m.Coherent m.requests) (hp : m.entries[p]? = none) :
    (m.remember p value).Coherent (m.requests + 1) := by
  have hnumber : m.order[m.requests]? = none := by
    rcases hq : m.order[m.requests]? with _ | q
    · rfl
    · exact absurd (h.number_lt _ q hq) (Nat.lt_irrefl _)
  constructor
  · intro t q
    simp only [KernelMatrix.remember, Std.TreeMap.getElem?_insert, Std.HashMap.getElem?_insert,
      Nat.compare_eq_eq, beq_iff_eq]
    by_cases ht : m.requests = t
    · subst ht
      by_cases hq : p = q
      · simp [hq]
      · have := h.place_iff m.requests q
        simp_all
    · by_cases hq : p = q
      · subst hq
        have := h.place_iff t p
        simp_all
      · simpa [ht, hq] using h.place_iff t q
  · have hout : m.requests ∉ m.order := by
      rw [← Std.TreeMap.isSome_getElem?_iff_mem, hnumber]
      simp
    have hout' : p ∉ m.entries := by
      rw [← Std.HashMap.isSome_getElem?_iff_mem, hp]
      simp
    simp [KernelMatrix.remember, Std.TreeMap.size_insert, Std.HashMap.size_insert, hout, hout',
      h.size_eq]
  · intro t q
    simp only [KernelMatrix.remember, Std.TreeMap.getElem?_insert, Nat.compare_eq_eq]
    split
    · omega
    · intro hq
      exact Nat.lt_succ_of_lt (h.number_lt t q hq)

/-- The oldest place has the number that is told. -/
theorem mem_of_oldest? {m : KernelMatrix α} {number : Nat} {p : Nat × Nat}
    (h : m.oldest? = some (number, p)) : m.order[number]? = some p := by
  simp only [oldest?, Option.bind_eq_some_iff, Option.map_eq_some_iff, Prod.mk.injEq] at h
  grind

/-- A value that is forgotten is not there. -/
theorem entries_forget (m : KernelMatrix α) (p : Nat × Nat) (number : Nat) :
    (m.forget p number).entries[p]? = none := by
  simp [forget]

/-- Making room either changes nothing or forgets a remembered value. -/
theorem makeRoom_cases (m : KernelMatrix α) :
    m.makeRoom = m ∨ ∃ number p, m.order[number]? = some p ∧ m.makeRoom = m.forget p number := by
  unfold makeRoom
  split
  · exact .inl rfl
  · split
    · rename_i number p h
      exact .inr ⟨number, p, mem_of_oldest? h, rfl⟩
    · exact .inl rfl

/-- Making room keeps the tables coherent. -/
theorem Coherent.makeRoom {bound : Nat} {m : KernelMatrix α} (h : m.Coherent bound) :
    m.makeRoom.Coherent bound := by
  rcases m.makeRoom_cases with hm | ⟨number, p, hnumber, hm⟩
  · rwa [hm]
  · obtain ⟨value, hp⟩ := (h.place_iff number p).1 hnumber
    exact hm ▸ h.forget hp

theorem requests_makeRoom (m : KernelMatrix α) : m.makeRoom.requests = m.requests := by
  rcases m.makeRoom_cases with hm | ⟨_, _, _, hm⟩ <;> rw [hm] <;> rfl

theorem capacity_makeRoom (m : KernelMatrix α) : m.makeRoom.capacity = m.capacity := by
  rcases m.makeRoom_cases with hm | ⟨_, _, _, hm⟩ <;> rw [hm] <;> rfl

/-- What is left after making room was there before. -/
theorem entries_makeRoom {m : KernelMatrix α} {p : Nat × Nat} {found : α × Nat}
    (h : m.makeRoom.entries[p]? = some found) : m.entries[p]? = some found := by
  rcases m.makeRoom_cases with hm | ⟨_, _, _, hm⟩
  · rwa [hm] at h
  · rw [hm] at h
    simp only [forget, Std.HashMap.getElem?_erase] at h
    grind

/-- After making room there is room, unless the capacity is zero. -/
theorem length_makeRoom {bound : Nat} {m : KernelMatrix α} (h : m.Coherent bound)
    (hpos : 0 < m.capacity) (hle : m.length ≤ m.capacity) : m.makeRoom.length < m.capacity := by
  unfold makeRoom
  split
  · assumption
  · rename_i hfull
    split
    · rename_i number p hold
      obtain ⟨value, hp⟩ := (h.place_iff number p).1 (mem_of_oldest? hold)
      have hin : p ∈ m.entries := by
        rw [← Std.HashMap.isSome_getElem?_iff_mem, hp]
        rfl
      simp only [length, forget, Std.HashMap.size_erase, hin, if_true] at hle hfull ⊢
      omega
    · rename_i hold
      exfalso
      have hsize : m.order.size ≠ 0 := by
        rw [h.size_eq]
        simp only [length] at hfull
        omega
      have hkey : m.order.minKey? ≠ none := by
        rw [ne_eq, Std.TreeMap.minKey?_eq_none_iff]
        simpa [Std.TreeMap.isEmpty_eq_size_eq_zero] using hsize
      obtain ⟨number, hnumber⟩ := Option.ne_none_iff_exists'.1 hkey
      have hmem := (Std.TreeMap.minKey?_eq_some_iff_mem_and_forall.1 hnumber).1
      simp only [oldest?, hnumber, Option.bind_some, Option.map_eq_none_iff] at hold
      rw [← Std.TreeMap.isSome_getElem?_iff_mem, hold] at hmem
      simp at hmem

/-- The two tables always tell the same. -/
theorem coherent_request (entry : Nat × Nat → Option α) (i j : Nat) {m : KernelMatrix α}
    (h : m.Coherent m.requests) :
    (m.request entry i j).2.Coherent (m.request entry i j).2.requests := by
  simp only [request]
  split
  · rename_i value number hp
    have hnext := (h.forget hp).remember value (m.entries_forget (place i j) number)
    have hlater : (m.forget (place i j) number).requests + 1 = m.hits + 1 + m.misses := by
      simp only [forget, requests]
      omega
    rw [hlater] at hnext
    exact ⟨hnext.place_iff, hnext.size_eq, hnext.number_lt⟩
  · rename_i hp
    split
    · rename_i value _
      have hroom := h.makeRoom
      rw [← m.requests_makeRoom] at hroom
      have hout : m.makeRoom.entries[place i j]? = none := by
        rcases hfound : m.makeRoom.entries[place i j]? with _ | found
        · rfl
        · simp [entries_makeRoom hfound] at hp
      have hnext := hroom.remember value hout
      exact ⟨hnext.place_iff, hnext.size_eq, hnext.number_lt⟩
    · exact ⟨h.place_iff, h.size_eq, fun t q ht => Nat.lt_succ_of_lt (h.number_lt t q ht)⟩

theorem length_remember_le (m : KernelMatrix α) (p : Nat × Nat) (value : α) :
    (m.remember p value).length ≤ m.length + 1 :=
  Std.HashMap.size_insert_le

/-- The memory never holds more than its capacity. -/
theorem length_request_le (entry : Nat × Nat → Option α) (i j : Nat) {m : KernelMatrix α}
    (h : m.Coherent m.requests) (hpos : 0 < m.capacity) (hle : m.length ≤ m.capacity) :
    (m.request entry i j).2.length ≤ (m.request entry i j).2.capacity := by
  simp only [request]
  split
  · rename_i value number hp
    have hin : place i j ∈ m.entries := by
      rw [← Std.HashMap.isSome_getElem?_iff_mem, hp]
      rfl
    have hmore := (m.forget (place i j) number).length_remember_le (place i j) value
    have hless : (m.forget (place i j) number).length = m.length - 1 := by
      simp [length, forget, Std.HashMap.size_erase, hin]
    have hsome : 0 < m.length := by
      simp only [length]
      have := Std.HashMap.isEmpty_eq_false_iff_exists_mem.2 ⟨_, hin⟩
      rw [Std.HashMap.isEmpty_eq_size_eq_zero] at this
      grind
    have hcapacity : ((m.forget (place i j) number).remember (place i j) value).capacity =
        m.capacity := rfl
    simp only [length] at *
    omega
  · split
    · rename_i value _
      have hroom := length_makeRoom h hpos hle
      have hmore := m.makeRoom.length_remember_le (place i j) value
      have hcapacity := m.capacity_makeRoom
      have hsame : (m.makeRoom.remember (place i j) value).capacity = m.makeRoom.capacity := rfl
      simp only [length] at *
      omega
    · exact hle

/-- A value that is forgotten is not found, others are. -/
theorem find?_forget (m : KernelMatrix α) (p q : Nat × Nat) (number : Nat) :
    (m.forget p number).find? q = if p = q then none else m.find? q := by
  simp only [find?, forget, Std.HashMap.getElem?_erase, beq_iff_eq]
  split <;> rfl

/-- A value that is remembered is found, others as before. -/
theorem find?_remember (m : KernelMatrix α) (p q : Nat × Nat) (value : α) :
    (m.remember p value).find? q = if p = q then some value else m.find? q := by
  simp only [find?, remember, Std.HashMap.getElem?_insert, beq_iff_eq]
  split <;> rfl

/-- What is found after making room was found before. -/
theorem find?_makeRoom {m : KernelMatrix α} {p : Nat × Nat} {value : α}
    (h : m.makeRoom.find? p = some value) : m.find? p = some value := by
  simp only [find?, Option.map_eq_some_iff] at h ⊢
  obtain ⟨found, hfound, rfl⟩ := h
  exact ⟨found, entries_makeRoom hfound, rfl⟩

/-- What is remembered was computed. -/
theorem remembered_request {entry : Nat × Nat → Option α} (i j : Nat) {m : KernelMatrix α}
    (h : ∀ p value, m.find? p = some value → entry p = some value) :
    ∀ p value, (m.request entry i j).2.find? p = some value → entry p = some value := by
  intro q found
  simp only [request]
  split
  · rename_i value number hp
    have hvalue : entry (place i j) = some value := h _ _ (by simp [find?, hp])
    intro hq
    replace hq : ((m.forget (place i j) number).remember (place i j) value).find? q =
      some found := hq
    rw [find?_remember, find?_forget] at hq
    have := h q found
    grind
  · split
    · rename_i value hvalue
      intro hq
      replace hq : (m.makeRoom.remember (place i j) value).find? q = some found := hq
      rw [find?_remember] at hq
      split at hq
      · simp_all
      · exact h q found (find?_makeRoom hq)
    · exact h q found

end KernelMatrix
end Retrace
