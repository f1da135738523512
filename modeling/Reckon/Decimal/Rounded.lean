import Reckon.Binary
import Reckon.Decimal.Numeral

/-!
Numerals of a given precision: a fixed number of places, a given number of significant digits with
an exponent, and the general form that chooses between the two. The exact value is rounded once, a
tie going to the even digit.
-/

set_option autoImplicit false

namespace Reckon.Decimal

/-- A size, which is not negative, with a fixed number of digits after the point. -/
def fixed (places : Nat) (size : Rat) : List Char :=
  let scaled := Binary.divEven (size.num.natAbs * tenPow places) size.den
  let written := digits scaled
  let padded := List.replicate (places + 1 - written.length) '0' ++ written
  let units := padded.take (padded.length - places)
  if places = 0 then units else units ++ '.' :: padded.drop (padded.length - places)

def significant (count : Nat) (size : Rat) : Numeral :=
  if size.num = 0 then { digits := List.replicate count '0', exponent := 0 }
  else
    let num := size.num.natAbs
    let top := decade num size.den
    let place : Int := top - (count - 1 : Int)
    let rounded :=
      if 0 ≤ place then Binary.divEven num (size.den * tenPow place.toNat)
      else Binary.divEven (num * tenPow (-place).toNat) size.den
    if rounded < tenPow count then { digits := digits rounded, exponent := top }
    else { digits := digits (rounded / 10), exponent := top + 1 }

/-- A size, which is not negative, with `count` significant digits and an exponent. -/
def scientific (mark : Char) (count : Nat) (size : Rat) : List Char :=
  (significant count size).exponential mark

/-- A size, which is not negative, in the general form: up to `count` significant digits, with an
exponent only when the value is below 0.0001 or needs more digits than that. -/
def general (count : Nat) (size : Rat) : List Char :=
  let numeral := significant count size
  let stripped := numeral.stripZeros
  if -4 ≤ numeral.exponent ∧ numeral.exponent < count then stripped.positional
  else stripped.exponential 'e'

def generalText (count : Nat) (x : Float) : String :=
  match Binary.special? x with
  | some name => name
  | none =>
    let written := general count (Binary.toRat x).abs
    String.ofList (if Binary.isNegative x then '-' :: written else written)

def groupDigits : List Char → List Char
  | a :: b :: c :: d :: rest => a :: b :: c :: ',' :: groupDigits (d :: rest)
  | few => few

def grouped (n : Nat) : String :=
  String.ofList (groupDigits (digits n).reverse).reverse

end Reckon.Decimal
