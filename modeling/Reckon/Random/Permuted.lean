import Reckon.Binary

/-!
The permuted congruential generator with 128 bits of state, and its start from any amount of
entropy.

The entropy is hashed into a pool of four words, every word of the pool is mixed with every other,
and the words that the pool yields make the first state and the increment.
-/

set_option autoImplicit false

namespace Reckon.Random

abbrev Word := UInt32

namespace Pool

def hash (constant value : Word) : Word × Word :=
  let next := constant * 0x931e8875
  let mixed := (value ^^^ constant) * next
  (next, mixed ^^^ (mixed >>> 16))

def mix (x y : Word) : Word :=
  let r := x * 0xca01f9dd - y * 0x4973f715
  r ^^^ (r >>> 16)

structure State where
  constant : Word
  words : List Word

def State.mixInto (s : State) (place : Nat) (value : Word) : State :=
  let (constant, hashed) := hash s.constant value
  ⟨constant, s.words.set place (mix (s.words.getD place 0) hashed)⟩

/-- The first four words, zeros standing in for missing ones, are hashed to make the pool. -/
def start (entropy : List Word) : State :=
  (List.range 4).foldl (fun s i =>
    let (constant, hashed) := hash s.constant (entropy.getD i 0)
    ⟨constant, s.words ++ [hashed]⟩) ⟨0x43b0d7e5, []⟩

def stir (s : State) : State :=
  (List.range 4).foldl (fun s source =>
    (List.range 4).foldl (fun s place =>
      if source = place then s else s.mixInto place (s.words.getD source 0)) s) s

def add (s : State) (value : Word) : State :=
  (List.range 4).foldl (fun s place => s.mixInto place value) s

def ofEntropy (entropy : List Word) : List Word :=
  ((entropy.drop 4).foldl add (stir (start entropy))).words

/-- The words that the pool yields, from a running constant; the pool is gone through in turn. -/
def yield (pool : List Word) : (count index : Nat) → (constant : Word) → List Word
  | 0, _, _ => []
  | count + 1, index, constant =>
    let next := constant * 0x58f38ded
    let mixed := (pool.getD (index % 4) 0 ^^^ constant) * next
    (mixed ^^^ (mixed >>> 16)) :: yield pool count (index + 1) next

def wide (words : List Word) : Nat :=
  words.foldr (fun word n => word.toNat + Binary.twoPow 32 * n) 0

end Pool

/-- The generator between two numbers. Twice the stream and one is the increment of its congruence. -/
structure Permuted where
  state : BitVec 128
  stream : BitVec 128
  deriving DecidableEq, Repr

namespace Permuted

def multiplier : BitVec 128 := 0x2360ed051fc65da44385df649fccf645

def increment (g : Permuted) : BitVec 128 :=
  g.stream * 2 + 1

def step (g : Permuted) : Permuted :=
  { g with state := g.state * multiplier + g.increment }

/-- Two halves of 64 bits, each with its low word first, the high half before the low one. -/
def join (high low : Nat) : BitVec 128 :=
  BitVec.ofNat 128 (Binary.twoPow 64 * high + low)

def ofEntropy (entropy : List Word) : Permuted :=
  let words := Pool.yield (Pool.ofEntropy entropy) 8 0 0x8b51f9dd
  let half := fun i => Pool.wide ((words.drop (2 * i)).take 2)
  let stream := join (half 2) (half 3)
  let first := step ⟨0, stream⟩
  step ⟨first.state + join (half 0) (half 1), stream⟩

/-- The number of a state: the two halves combined and turned by the topmost bits. -/
def output (state : BitVec 128) : UInt64 :=
  let n := state.toNat
  let mixed := (n / Binary.twoPow 64).toUInt64 ^^^ n.toUInt64
  let turn := (n / Binary.twoPow 122).toUInt64
  (mixed >>> turn) ||| (mixed <<< ((64 - turn) % 64))

end Permuted

end Reckon.Random
