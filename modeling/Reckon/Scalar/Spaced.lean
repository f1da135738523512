import Reckon.Scalar.Basic

/-!
Evenly spaced points, and sums in pairs.

Both fix the order of the roundings, so that doubles give the same digits every time.
-/

set_option autoImplicit false

namespace Reckon.Scalar

variable {R : Type} [Scalar R]

/-- The point with the given index among the ends of `count` equal steps from `low` to `high`,
leaving the last one out. -/
def stepPoint (low high : R) (count index : Nat) : R :=
  let way := high - low
  let step := way / ofInt count
  -- a step that is too small to be told from zero is taken as a fraction of the whole way
  if isZero step then ofInt index / ofInt count * way + low else ofInt index * step + low

def spaced (low high : R) (count : Nat) : List R :=
  (List.range count).map (stepPoint low high count) ++ [high]

def sumInOrder : List R → R
  | [] => ofInt 0
  | x :: rest => rest.foldl (· + ·) x

/-- Adds the items to eight running sums, each item to the next sum in turn, as long as there are
items for all of them; `blocks` bounds the rounds. -/
def sumLanes : (blocks : Nat) → (lanes items : List R) → List R × List R
  | 0, lanes, items => (lanes, items)
  | blocks + 1, lanes, items =>
    if items.length < 8 then (lanes, items)
    else sumLanes blocks (lanes.zipWith (· + ·) items) (items.drop 8)

/-- The sum of eight running sums, neighbours first, and of the items that are left. -/
def joinLanes : List R × List R → R
  | ([a, b, c, d, e, f, g, h], rest) =>
    rest.foldl (· + ·) (((a + b) + (c + d)) + ((e + f) + (g + h)))
  | (lanes, rest) => sumInOrder (lanes ++ rest)

/-- The sum in pairs: a long list is cut into two halves, the first of them of a length that eight
divides, and a short list is summed in eight lanes. -/
def sumInPairs (items : List R) : R :=
  let count := items.length
  if count < 8 then sumInOrder items
  else if _h : count ≤ 128 then joinLanes (sumLanes count (items.take 8) (items.drop 8))
  else
    let half := count / 2 - count / 2 % 8
    sumInPairs (items.take half) + sumInPairs (items.drop half)
termination_by items.length
decreasing_by
  all_goals simp only [List.length_take, List.length_drop]; omega

def mean (items : List R) : R :=
  (ofInt 0 + sumInPairs items) / ofInt items.length

end Reckon.Scalar
