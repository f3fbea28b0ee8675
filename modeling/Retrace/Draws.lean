import Retrace.Scalar

/-!
# Seeded draws

A stream of 32-bit words that a seed determines: a block of sixteen words is the sum of a state and
of what twelve rounds of mixing make of it, and the blocks are numbered.  Numbers below a bound are
drawn from the words without bias, and a list is shuffled by such draws.

Main results:

- Theorem `below_lt`: a number that is drawn is below its bound.
- Theorem `shuffle_perm`: a shuffled list holds what the list held.
-/

namespace Retrace

/-- A stream of words: its key, the number of the next block, and what is left of the last one. -/
structure Draws where
  key : Vector UInt32 8
  block : UInt64
  rest : List UInt32

namespace Draws

/-! ## Blocks -/

/-- A word with its bits rotated to the left. -/
def rotateLeft (x : UInt32) (n : UInt32) : UInt32 :=
  (x <<< n) ||| (x >>> (32 - n))

/-- A word with its bits rotated to the right. -/
def rotateRight (x : UInt32) (n : UInt32) : UInt32 :=
  (x >>> n) ||| (x <<< (32 - n))

/-- Mix four words of a state. -/
def quarter (s : Vector UInt32 16) (a b c d : Fin 16) : Vector UInt32 16 :=
  let s := s.set a (s[a] + s[b])
  let s := s.set d (rotateLeft (s[d] ^^^ s[a]) 16)
  let s := s.set c (s[c] + s[d])
  let s := s.set b (rotateLeft (s[b] ^^^ s[c]) 12)
  let s := s.set a (s[a] + s[b])
  let s := s.set d (rotateLeft (s[d] ^^^ s[a]) 8)
  let s := s.set c (s[c] + s[d])
  s.set b (rotateLeft (s[b] ^^^ s[c]) 7)

/-- Mix the columns and then the diagonals of a state. -/
def doubleRound (s : Vector UInt32 16) : Vector UInt32 16 :=
  let s := quarter s 0 4 8 12
  let s := quarter s 1 5 9 13
  let s := quarter s 2 6 10 14
  let s := quarter s 3 7 11 15
  let s := quarter s 0 5 10 15
  let s := quarter s 1 6 11 12
  let s := quarter s 2 7 8 13
  quarter s 3 4 9 14

/-- The state that a block is made from. -/
def initialState (key : Vector UInt32 8) (block : UInt64) : Vector UInt32 16 :=
  #v[0x61707865, 0x3320646e, 0x79622d32, 0x6b206574,
    key[0], key[1], key[2], key[3], key[4], key[5], key[6], key[7],
    block.toUInt32, (block >>> 32).toUInt32, 0, 0]

/-- The words of a block: six double rounds, added to the state. -/
def blockWords (key : Vector UInt32 8) (block : UInt64) : List UInt32 :=
  let start := initialState key block
  let mixed := Nat.repeat doubleRound 6 start
  (mixed.zipWith (fun x y => x + y) start).toList

/-! ## Seeds -/

/-- The next value of the generator that spreads a seed over a key. -/
def spread (seed : UInt64) : UInt64 :=
  seed * 6364136223846793005 + 11634580027462260723

/-- The key word of a value of that generator. -/
def keyWord (seed : UInt64) : UInt32 :=
  rotateRight (((seed >>> 18) ^^^ seed) >>> 27).toUInt32 (seed >>> 59).toUInt32

/-- The stream of a seed. -/
def ofSeed (seed : UInt64) : Draws where
  key := Vector.ofFn fun i : Fin 8 => keyWord (Nat.repeat spread (i.val + 1) seed)
  block := 0
  rest := []

/-! ## Numbers -/

/-- The next word. -/
def nextWord (d : Draws) : UInt32 × Draws :=
  match d.rest with
  | w :: rest => (w, { d with rest := rest })
  | [] =>
      match blockWords d.key d.block with
      | w :: rest => (w, { d with block := d.block + 1, rest := rest })
      | [] => (0, { d with block := d.block + 1 })

/-- The next two words as one, the low word first. -/
def nextPair (d : Draws) : UInt64 × Draws :=
  let (low, d) := d.nextWord
  let (high, d) := d.nextWord
  (low.toUInt64 ||| (high.toUInt64 <<< 32), d)

/-- The greatest low part that is accepted, for a bound and a number of bits: what lies beyond it
would favour some numbers. -/
def acceptedUpTo (bits bound : Nat) : Nat :=
  bound * Nat.pow 2 (bits - 1 - bound.log2) - 1

/-- Draw words until one is accepted and give the high part of its product with the bound.  After so
many draws the last one is taken as it is.  This is the one difference from the generator that is
modelled, which draws on until a word is accepted: it makes the draws total, and shows only if as
many words in a row are refused as `mostAttempts` says. -/
def belowFrom (bits : Nat) (next : Draws → Nat × Draws) (bound : Nat) (d : Draws) :
    Nat → Nat × Draws
  | 0 =>
      let (word, d) := next d
      (word % Nat.pow 2 bits * bound / Nat.pow 2 bits, d)
  | attempts + 1 =>
      let (word, d) := next d
      let product := word % Nat.pow 2 bits * bound
      if product % Nat.pow 2 bits ≤ acceptedUpTo bits bound then (product / Nat.pow 2 bits, d)
      else belowFrom bits next bound d attempts

/-- How often a draw is repeated at most.  Each is accepted with a chance of at least one half, so
no stream that can be met gets this far. -/
def mostAttempts : Nat := 1000

/-- A number below a bound, drawn from pairs of words. -/
def below (bound : Nat) (d : Draws) : Nat × Draws :=
  belowFrom 64 (fun d => (d.nextPair.1.toNat, d.nextPair.2)) bound d mostAttempts

/-- A number below a bound, drawn from single words if the bound fits into one. -/
def belowSmall (bound : Nat) (d : Draws) : Nat × Draws :=
  if bound < UInt32.size then
    belowFrom 32 (fun d => (d.nextWord.1.toNat, d.nextWord.2)) bound d mostAttempts
  else d.below bound

/-! ## Shuffles -/

variable {β : Type}

/-- Swap every entry from position `i` down with one that is drawn from those up to it. -/
def shuffleFrom (d : Draws) (xs : Array β) : Nat → Array β
  | 0 => xs
  | i + 1 =>
      let (j, d) := d.belowSmall (i + 2)
      shuffleFrom d (xs.swapIfInBounds (i + 1) j) i

/-- A list in the order that a stream gives it. -/
def shuffle (d : Draws) (xs : List β) : List β :=
  (shuffleFrom d xs.toArray (xs.length - 1)).toList

/-! ## Laws -/

/-- The high part of a product of a word with a bound is below the bound. -/
theorem mul_div_lt {word bits bound : Nat} (h : 0 < bound) :
    word % Nat.pow 2 bits * bound / Nat.pow 2 bits < bound := by
  have hpos : 0 < Nat.pow 2 bits := Nat.two_pow_pos bits
  rw [Nat.div_lt_iff_lt_mul hpos, Nat.mul_comm bound]
  exact Nat.mul_lt_mul_of_pos_right (Nat.mod_lt _ hpos) h

/-- However often it is repeated, a draw is below its bound. -/
theorem belowFrom_lt {bits bound : Nat} (next : Draws → Nat × Draws) (h : 0 < bound)
    (d : Draws) (attempts : Nat) : (belowFrom bits next bound d attempts).1 < bound := by
  induction attempts generalizing d with
  | zero => exact mul_div_lt h
  | succ attempts ih =>
      simp only [belowFrom]
      split
      · exact mul_div_lt h
      · exact ih _

/-- A number that is drawn is below its bound. -/
theorem below_lt {bound : Nat} (h : 0 < bound) (d : Draws) : (d.below bound).1 < bound :=
  belowFrom_lt _ h d _

/-- Shuffling from a position on holds what was held. -/
theorem shuffleFrom_perm (d : Draws) (xs : Array β) (i : Nat) : (shuffleFrom d xs i).Perm xs := by
  induction i generalizing d xs with
  | zero => exact .refl _
  | succ i ih =>
      simp only [shuffleFrom]
      refine (ih _ _).trans ?_
      simp only [Array.swapIfInBounds]
      split
      · split
        · exact Array.swap_perm _ _
        · exact .refl _
      · exact .refl _

/-- A shuffled list holds what the list held. -/
theorem shuffle_perm (d : Draws) (xs : List β) : (d.shuffle xs).Perm xs :=
  (shuffleFrom_perm d xs.toArray _).toList

end Draws
end Retrace
