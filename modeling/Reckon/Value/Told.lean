import Reckon.Machine
import Reckon.Value.Basic

/-!
Values told in a text.

A whole number of too many digits is never written, and neither are values that are nested too
deeply. A message that should name such a value fails in place of what it was to say.
-/

set_option autoImplicit false

namespace Reckon.Value

/-- Why what a value holds cannot be told, if it cannot; there must be room for one more level. -/
def troubleInside (room : Nat) (inner : Nat → Option Failure) : Option Failure :=
  match room with
  | 0 => some .tooNested
  | room + 1 => inner room

mutual

/-- Why a value inside others with the given labels cannot be told, if it cannot; it may be nested
`room` deep. -/
def troubleWithin (around : List Nat) (room : Nat) : Value → Option Failure
  | int n => if Decimal.unwritten ≤ n.natAbs then some (.unsuitable .unwritten) else none
  | list items | tuple items | array items | set items =>
    troubleInside room fun room => troubleAmong around room items
  | record entries => troubleInside room fun room => troubleIn around room entries
  | shared label value =>
    if around.contains label then none else troubleWithin (label :: around) room value
  | null | bool _ | real _ | text _ | bytes _ | date .. | moment _ => none

def troubleAmong (around : List Nat) (room : Nat) : List Value → Option Failure
  | [] => none
  | item :: rest => (troubleWithin around room item).or (troubleAmong around room rest)

def troubleIn (around : List Nat) (room : Nat) : List (Value × Value) → Option Failure
  | [] => none
  | (key, value) :: rest =>
    (troubleWithin around room key).or
      ((troubleWithin around room value).or (troubleIn around room rest))

end

def trouble? [Machine] (v : Value) : Option Failure :=
  troubleWithin [] Machine.valueDepth v

def told [Machine] (v : Value) : Except Failure String :=
  match v.trouble? with
  | some failure => .error failure
  | none => .ok v.toText

def naming [Machine] (v : Value) (failure : Failure) : Failure :=
  v.trouble?.getD failure

end Reckon.Value
