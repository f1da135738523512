import Reckon.Failure

/-!
The machine that a computation runs on.

How deep calls may go, and which rows of numbers and which texts there is memory for, is decided by
the machine and by the library that lays out the rows. Whatever is asked of them may be refused; a
machine that grants a row has room for what is made of the row, too.
-/

set_option autoImplicit false

namespace Reckon

class Machine where
  /-- How deep the brackets, powers and signs of a formula may be nested. -/
  formulaDepth : Nat
  /-- How deep values may be nested to be told in a text. -/
  valueDepth : Nat
  /-- Room for a row of numbers, whole or not. -/
  row : (whole : Bool) → (count : Nat) → Except Failure Unit
  /-- Room for a row of evenly spaced points. -/
  points : (count : Nat) → Except Failure Unit
  /-- Room for a text. -/
  text : (length : Int) → Except Failure Unit

namespace Machine

/-- What a library that lays out numbers of eight bytes each in the memory of a process does: it has
no row beyond addresses of 48 bits, and refuses one for its count, for its size in bytes, or for
lack of memory. A record of values that hold no others can be told. -/
class Lawful [Machine] : Prop where
  valueDepth_pos : 0 < valueDepth
  lt_of_row : ∀ {whole : Bool} {count : Nat}, row whole count = .ok () → count < Binary.twoPow 45
  refusal_of_row : ∀ {whole : Bool} {count : Nat} {refusal : Failure},
    row whole count = .error refusal →
      refusal = .unsuitable .beyondCount ∨ refusal = .unsuitable .beyondPlaces ∨
        refusal = .outOfMemory count whole

/-! ## A machine -/

namespace Standard

def limit : Nat := Binary.twoPow 40

def row (whole : Bool) (count : Nat) : Except Failure Unit :=
  if Binary.twoPow 63 ≤ count then .error (.unsuitable .beyondCount)
  else if Binary.twoPow 60 ≤ count then .error (.unsuitable .beyondPlaces)
  else if limit ≤ count then .error (.outOfMemory count whole)
  else .ok ()

/-- Points are counted by a double. Of exactly 2^63 none are laid out, so that the last of them is
missing. -/
def points (count : Nat) : Except Failure Unit :=
  let length := Binary.roundBits 53 count
  if (Binary.ofInt? count).isNone then .error .overflow
  else if Binary.twoPow 63 < length then .error (.unsuitable .beyondSteps)
  else if length = Binary.twoPow 63 then .error .outOfRange
  else row false length

def text (length : Int) : Except Failure Unit :=
  if !Binary.isCounter length then .error .overflow
  else if limit ≤ length then .error .noMemory
  else .ok ()

end Standard

/-- A machine with room for 2^40 numbers in a row. -/
@[reducible]
def standard : Machine where
  formulaDepth := 960
  valueDepth := 960
  row := Standard.row
  points := Standard.points
  text := Standard.text

end Machine

end Reckon
