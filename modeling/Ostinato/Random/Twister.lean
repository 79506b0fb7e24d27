/-!
# The Mersenne twister

A generator of 32-bit words, seeded by the 32-bit digits of a whole number.
-/

namespace Ostinato

/-- The words of the generator, and the place of the next one. -/
structure Twister where
  words : Array UInt32
  next : Nat
deriving DecidableEq, Repr

namespace Twister

def size : Nat := 624

/-! ### Seeding -/

/-- The words before a seed is mixed in: each from the one before. -/
def initialWords : Array UInt32 :=
  ((List.range (size - 1)).foldl (fun (state : Array UInt32 × UInt32) (i : Nat) =>
    let word := (1812433253 : UInt32) * (state.2 ^^^ (state.2 >>> 30)) + (UInt32.ofNat (i + 1))
    (state.1.push word, word)) (#[19650218], 19650218)).1

/-- The 32-bit digits of a number, the least significant first; zero has one digit. -/
def digits (n : Nat) : List UInt32 :=
  if n < 0x100000000 then [UInt32.ofNat n]
  else UInt32.ofNat (n % 0x100000000) :: digits (n / 0x100000000)
termination_by n
decreasing_by omega

/-- Goes on to the next place of a seeding round; after the last word the first one is set to it. -/
def step (words : Array UInt32) (i : Nat) : Array UInt32 × Nat :=
  if size ≤ i + 1 then (words.setIfInBounds 0 (words.getD (size - 1) 0), 1) else (words, i + 1)

def mixed (words : Array UInt32) (i : Nat) (factor : UInt32) : UInt32 :=
  let before := words.getD (i - 1) 0
  words.getD i 0 ^^^ ((before ^^^ (before >>> 30)) * factor)

/-- Mixes the digits of a seed into the words. -/
def mixSeed (key : Array UInt32) (words : Array UInt32) : Array UInt32 × Nat :=
  (List.range (max size key.size)).foldl (fun (state : Array UInt32 × Nat) (n : Nat) =>
    let j := n % key.size
    let word := mixed state.1 state.2 1664525 + key.getD j 0 + UInt32.ofNat j
    step (state.1.setIfInBounds state.2 word) state.2) (words, 1)

/-- Mixes the words once more, with their places. -/
def mixPlaces (words : Array UInt32) (start : Nat) : Array UInt32 :=
  ((List.range (size - 1)).foldl (fun (state : Array UInt32 × Nat) (_ : Nat) =>
    let word := mixed state.1 state.2 1566083941 - UInt32.ofNat state.2
    step (state.1.setIfInBounds state.2 word) state.2) (words, start)).1

/-- The generator for a seed; the sign of the seed has no effect. -/
def seeded (seed : Int) : Twister :=
  let (words, place) := mixSeed (digits seed.natAbs).toArray initialWords
  ⟨(mixPlaces words place).setIfInBounds 0 0x80000000, size⟩

/-! ### Words -/

/-- The word that takes the place of word `i` in the next block. -/
def twisted (words : Array UInt32) (i : Nat) : UInt32 :=
  let joined := (words.getD i 0 &&& 0x80000000) ||| (words.getD ((i + 1) % size) 0 &&& 0x7FFFFFFF)
  words.getD ((i + 397) % size) 0 ^^^ (joined >>> 1) ^^^ (if joined &&& 1 = 1 then 0x9908B0DF else 0)

def reload (words : Array UInt32) : Array UInt32 :=
  (List.range size).foldl (fun words i => words.setIfInBounds i (twisted words i)) words

def tempered (word : UInt32) : UInt32 :=
  let a := word ^^^ (word >>> 11)
  let b := a ^^^ ((a <<< 7) &&& 0x9D2C5680)
  let c := b ^^^ ((b <<< 15) &&& 0xEFC60000)
  c ^^^ (c >>> 18)

def word (t : Twister) : UInt32 × Twister :=
  if t.next < size then (tempered (t.words.getD t.next 0), { t with next := t.next + 1 })
  else
    let words := reload t.words
    (tempered (words.getD 0 0), ⟨words, 1⟩)

/-- A whole number of some bits: words from the least significant one on, the last one cut. -/
def bits (t : Twister) (count : Nat) : Nat × Twister :=
  let (word, t') := t.word
  if h : count ≤ 32 then (word.toNat >>> (32 - count), t')
  else
    let (rest, t'') := t'.bits (count - 32)
    (word.toNat + rest * 0x100000000, t'')
termination_by count
decreasing_by omega

/-- The number of halvings down to zero. -/
def bitLength (n : Nat) : Nat := if n = 0 then 0 else n.log2 + 1

/-- Draws numbers as long as `n` is in bits until one is below `n`, for a number of tries. -/
def belowWithin (n : Nat) : Nat → Twister → Nat × Twister
  | 0, t => (0, t)
  | tries + 1, t =>
    let (value, t') := t.bits (bitLength n)
    if value < n then (value, t') else belowWithin n tries t'

/-- A number below `n`, for positive `n`. Each try is at least as likely to end the search as not. -/
def below (t : Twister) (n : Nat) : Nat × Twister := belowWithin n 10000 t

/-- A number from 0 to below 1 on a grid of `2 ^ (-53)`, by its place on the grid. -/
def fraction (t : Twister) : Nat × Twister :=
  let (high, t') := t.word
  let (low, t'') := t'.word
  ((high >>> 5).toNat * Nat.pow 2 26 + (low >>> 6).toNat, t'')

end Twister

end Ostinato
