import Reckon.Random.Source
import Reckon.Value.Reading

/-!
Seeds: the values that start a generator, and the entropy they hold.
-/

set_option autoImplicit false

namespace Reckon.Random

namespace Seed

def words : (count : Nat) → Nat → List Word
  | 0, _ => []
  | count + 1, n =>
    if n < Binary.twoPow 32 then [n.toUInt32]
    else n.toUInt32 :: words count (n / Binary.twoPow 32)

def ofInt (n : Int) : Except Failure (List Word) :=
  if n < 0 then .error (.unsuitable .negativeSeed)
  else .ok (words (n.natAbs.log2 + 1) n.natAbs)

/-- The whole number that a text among the items of a seed writes, in decimal or after a mark in
hexadecimal digits. -/
def ofText (s : String) : Except Failure Int :=
  match s.toList with
  | '0' :: 'x' :: _ => Value.wholeOf 16 (.text s) s
  | first :: _ =>
    if Text.isAsciiDigit first then Value.wholeOf 10 (.text s) s
    else .error (.unsuitable .seedText)
  | [] => .error (.unsuitable .seedText)

mutual

/-- The entropy of an item of a seed: a whole number, a text that writes one, or items. -/
def ofItem : Value → Except Failure (List Word)
  | .int n => ofInt n
  | .bool b => ofInt (if b then 1 else 0)
  | .text s => do ofInt (← ofText s)
  | .list items | .tuple items | .array items | .set items => ofItems items
  | .bytes content => return (← content.mapM fun byte => ofInt byte.toNat).flatten
  | .record entries => ofKeys entries
  | .shared _ value => ofItem value
  | _ => .error (.unfit .kind)

def ofItems : List Value → Except Failure (List Word)
  | [] => .ok []
  | item :: rest => do
    let first ← ofItem item
    let others ← ofItems rest
    return first ++ others

def ofKeys : List (Value × Value) → Except Failure (List Word)
  | [] => .ok []
  | (key, _) :: rest => do
    let first ← ofItem key
    let others ← ofKeys rest
    return first ++ others

end

/-- The entropy of a seed: a whole number or a list. No seed at all stands for any entropy. -/
def entropy (seed : Value) : Except Failure (List Word) :=
  match seed.bare with
  | .null => .ok []
  | .int n => ofItem (.int n)
  | .bool b => ofItem (.bool b)
  | .list items => ofItems items
  | .tuple items => ofItems items
  | .array items => ofItems items
  | _ => .error (.unfit .kind)

end Seed

def Source.ofSeed (seed : Value) : Except Failure Source := do
  let entropy ← Seed.entropy seed
  return Source.ofEntropy entropy

end Reckon.Random
