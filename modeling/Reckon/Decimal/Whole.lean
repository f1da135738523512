import Reckon.Decimal.Read

/-!
Whole numbers written in a base.

The digits may have blanks around them, a sign, the mark of the base and single underscores. A
number of too many digits is not read, except in a base that is a power of two.
-/

set_option autoImplicit false

namespace Reckon.Decimal

inductive Whole where
  | number (n : Int)
  | tooLong (digits : Nat)
  | unreadable
  deriving DecidableEq, Repr

/-- How many digits are read in a base that is no power of two, and written in decimal. -/
def digitLimit : Nat := 4300

@[irreducible]
def unwritten : Nat := tenPow digitLimit

def radixDigit? (base : Nat) (c : Char) : Option Nat :=
  let value? :=
    if Text.isAsciiDigit c then some (c.toNat - 48)
    else if Text.isAsciiLetter c then some (c.toLower.toNat - 87)
    else none
  value?.filter (· < base)

def radixMark? (base : Nat) : Option Char :=
  [(2, 'b'), (8, 'o'), (16, 'x')].lookup base

/-- The characters without the mark of the base in front, and without an underscore after it. -/
def dropRadixMark (base : Nat) (cs : List Char) : List Char :=
  match cs with
  | '0' :: mark :: rest =>
    if radixMark? base = some mark.toLower then
      match rest with
      | '_' :: rest => rest
      | rest => rest
    else cs
  | cs => cs

def separates (afterDigit : Bool) : List Char → Bool
  | [] => afterDigit
  | c :: rest => if c = '_' then afterDigit && separates false rest else separates true rest

def radixValue (base : Nat) (digits : List Char) : Nat :=
  digits.foldl (fun n c => base * n + (radixDigit? base c).getD 0) 0

def readWhole (base : Nat) (s : String) : Whole :=
  let (negative, cs) := splitSign (asciiDigits (Text.dropAround Text.isPadding s.toList))
  let cs := dropRadixMark base cs
  let run := cs.takeWhile fun c => (radixDigit? base c).isSome || c == '_'
  let digits := run.filter (· != '_')
  if !separates false run then .unreadable
  else if (radixMark? base).isNone && digitLimit < digits.length then .tooLong digits.length
  else if run.length < cs.length then .unreadable
  else
    let size : Int := radixValue base digits
    .number (if negative then -size else size)

end Reckon.Decimal
