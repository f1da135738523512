import Reckon.Scalar.Basic

/-!
Values read as numbers, truth values, records and lists.
-/

set_option autoImplicit false

namespace Reckon.Value

/-- The text of bytes; a byte that is no ASCII character stands for a character that no number
holds. -/
def bytesText (content : List UInt8) : String :=
  String.ofList (content.map fun byte => Char.ofNat (if byte < 128 then byte.toNat else 0xfffd))

def realOf (written : Value) (s : String) : Except Failure Float :=
  match Decimal.real? s with
  | some x => .ok x
  | none => .error (.unsuitable (.notNumeral written))

/-- The whole number that a text writes in a base; `written` is what a message names. -/
def wholeOf (base : Nat) (written : Value) (s : String) : Except Failure Int :=
  match Decimal.readWhole base s with
  | .number n => .ok n
  | .tooLong count => .error (.unsuitable (.tooManyDigits count))
  | .unreadable => .error (.unsuitable (.notWhole base written))

/-- The value as a double: a number, a truth value, or a text that writes a number. -/
def toReal : Value → Except Failure Float
  | real x => .ok x
  | int n =>
    match Binary.ofInt? n with
    | some x => .ok x
    | none => .error .overflow
  | bool b => .ok (if b then 1 else 0)
  | text s => realOf (text s) s
  | bytes content => realOf (bytes content) (bytesText content)
  | _ => .error (.unfit .kind)

def toVariable : Value → Except Failure Float
  | null => .ok Binary.nan
  | value => value.toReal

/-- The value as a whole number: a number without its fraction, a truth value, or a text of
digits. -/
def toWhole : Value → Except Failure Int
  | int n => .ok n
  | bool b => .ok (if b then 1 else 0)
  | real x => Scalar.truncated x
  | text s => wholeOf 10 (text s) s
  | bytes content => wholeOf 10 (bytes content) (bytesText content)
  | _ => .error (.unfit .kind)

def truth : Value → Except Failure Bool
  | null => .ok false
  | bool b => .ok b
  | int n => .ok (n != 0)
  | real x => .ok (x != 0)
  | text s => .ok (!s.isEmpty)
  | bytes content => .ok (!content.isEmpty)
  | date .. | moment _ => .ok true
  | list items | tuple items | set items => .ok (!items.isEmpty)
  | record entries => .ok (!entries.isEmpty)
  | array [item] => item.truth
  | array [] => .error (.unsuitable .emptyTruth)
  | array _ => .error (.unsuitable .ambiguousTruth)
  | shared _ value => value.truth

/-- The values that a value goes through: the items of a list, the keys of a record, the characters
of a text, the numbers of bytes. -/
def items : Value → Except Failure (List Value)
  | list items | tuple items | array items | set items => .ok items
  | record entries => .ok (entries.map Prod.fst)
  | text s => .ok (s.toList.map fun c => text c.toString)
  | bytes content => .ok (content.map fun byte => int byte.toNat)
  | shared _ value => value.items
  | _ => .error (.unfit .kind)

/-- The pairs that the items make up, each item holding a key and a value; `index` counts the
items before. -/
def pairs (index : Nat) : List Value → Except Failure (List (Value × Value))
  | [] => .ok []
  | item :: rest =>
    match item.items with
    | .error failure => .error failure
    | .ok [key, value] => do
      if !key.isName then throw (.unfit .kind)
      let others ← pairs (index + 1) rest
      return (key, value) :: others
    | .ok parts => .error (.unsuitable (.pairLength index parts.length))

def toRecord (v : Value) : Except Failure Entries :=
  match v.bare with
  | record entries => .ok entries
  | value => do
    let items ← value.items
    let pairs ← pairs 0 items
    return Entries.ofPairs pairs

end Reckon.Value
