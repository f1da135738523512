import Reckon.Failure
import Reckon.Random.Permuted

/-!
Sources of random draws from the unit interval.

A source is a value: a draw gives a number and the source after it. A generator never runs out of
draws; a list of draws does.
-/

set_option autoImplicit false

namespace Reckon.Random

inductive Source where
  | listed (draws : List Float)
  | congruential (state : UInt64)
  | permuted (generator : Permuted)

namespace Source

def unitFloat (bits : UInt64) : Float :=
  (bits >>> 11).toFloat * Float.ofBits 0x3ca0000000000000

def advance (state : UInt64) : UInt64 :=
  state * 6364136223846793005 + 1442695040888963407

def next? : Source → Option (Float × Source)
  | listed [] => none
  | listed (u :: rest) => some (u, listed rest)
  | congruential state => some (unitFloat (advance state), congruential (advance state))
  | permuted generator =>
    some (unitFloat (Permuted.output generator.step.state), permuted generator.step)

def nonzero? (s : Source) : Option (Float × Source) := do
  let (u, t) ← s.next?
  -- a source of nothing but zeros has no such draw
  if u == 0 then t |>.nonzero? else some (u, t)
partial_fixpoint

/-- How many more draws it takes until the product of the draws, starting from `product`, no longer
exceeds the limit, not counting the last one. -/
def belowLimit? (limit product : Float) (count : Nat) (s : Source) : Option (Nat × Source) := do
  let (u, t) ← s.next?
  -- there is no end if every product exceeds the limit
  if limit < product * u then t |>.belowLimit? limit (product * u) (count + 1) else some (count, t)
partial_fixpoint

def ofEntropy (entropy : List Word) : Source :=
  permuted (Permuted.ofEntropy entropy)

end Source

end Reckon.Random
