import Reckon.Failure

/-!
Rows of doubles that are set aside before they are filled.

Nothing is cleared when a row is set aside: a cell holds what stood there before until it is written
to.
-/

set_option autoImplicit false

namespace Reckon

structure Buffer where
  length : Nat
  stale : Nat → Float
  /-- The cells from the first one to the last one that was written to. -/
  reached : Array Float

namespace Buffer

def setAside (stale : Nat → Float) (length : Nat) : Buffer where
  length
  stale
  reached := #[]

def read (b : Buffer) (i : Nat) : Float :=
  b.reached.getD i (b.stale i)

def extend (stale : Nat → Float) (reached : Array Float) (i : Nat) (x : Float) : Array Float :=
  if i < reached.size then reached.setIfInBounds i x
  else (reached ++ (Array.range' reached.size (i - reached.size)).map stale).push x

def write (b : Buffer) (i : Nat) (x : Float) : Except Failure Buffer :=
  if i < b.length then .ok { b with reached := extend b.stale b.reached i x }
  else .error .outOfRange

def first (b : Buffer) (count : Nat) : List Float :=
  (List.range (min count b.length)).map b.read

end Buffer

end Reckon
