import Reckon.Decimal.Rounded
import Reckon.Failure

/-!
The numbers that summaries, histograms, charts and figures are computed with.

The same definitions run on doubles, where each operation rounds, and on the rationals, where they
are exact.
-/

set_option autoImplicit false

namespace Reckon

/-- Numbers with an order, whole parts and decimal digits. -/
class Scalar (R : Type) extends Add R, Sub R, Mul R, Div R where
  ofInt : Int → R
  /-- The strict order; what is not a number is below nothing. -/
  lt : R → R → Bool
  le : R → R → Bool
  isFinite : R → Bool
  special? : R → Option String
  isNegative : R → Bool
  exact : R → Rat
  /-- The greatest whole number that is not above, as a counter. -/
  floor : R → Int
  /-- The least whole number that is not below, as a counter. -/
  ceil : R → Int
  truncated : R → Except Failure Int
  share : (count : Nat) → (part : R) → Int
  /-- The power of ten of the first digit of a number that is not zero. -/
  decade : R → Int
  /-- The number rounded to the given count of places after the point, or before it if negative. -/
  roundTo : (places : Int) → R → R
  /-- Whether the size of the number is at least the given power of ten. -/
  reaches : (exponent : Int) → R → Bool

namespace Scalar

def decadeLimit : Nat := 400

/-- A power of ten as a double, by repeated multiplication beyond the powers that are exact. -/
def doublePower : Nat → Float
  | 0 => 1
  | n + 1 => doublePower n * 10

/-- A double rounded to a count of decimal places: scaled, rounded to a whole number and scaled
back. -/
def roundDouble (places : Int) (x : Float) : Float :=
  let power := doublePower (min places.natAbs decadeLimit)
  if 0 ≤ places then Binary.roundWhole (x * power) / power
  else Binary.roundWhole (x / power) * power

/-- The least size of a double that reaches a power of ten; a negative power is rounded. -/
def doubleBound (exponent : Int) : Rat :=
  if 0 ≤ exponent then ((Decimal.tenPow (min exponent.toNat decadeLimit) : Int) : Rat)
  else Binary.toRat (Float.pow 10 (Binary.ofRatio true exponent.natAbs 1))

/-- The whole part of `count · part`, the product rounded to the precision of a double. -/
def doubleShare (count : Nat) (part : Float) : Int :=
  let (mantissa, exponent) := Binary.parts part
  let product := Binary.roundBits 53 (count * mantissa)
  let size : Int :=
    if 0 ≤ exponent then product * Binary.twoPow exponent.toNat
    else product / Binary.twoPow (-exponent).toNat
  if Binary.isNegative part then -size else size

def doubleDecade (x : Float) : Int :=
  max (-decadeLimit) (min decadeLimit (Binary.floor (Float.log10 x.abs).floor))

instance : Scalar Float where
  ofInt n := Binary.ofRatio (n < 0) n.natAbs 1
  lt x y := x < y
  le x y := x ≤ y
  isFinite x := x.isFinite
  special? := Binary.special?
  isNegative := Binary.isNegative
  exact := Binary.toRat
  floor := Binary.floor
  ceil := Binary.ceil
  truncated x :=
    if x.isNaN then .error (.unsuitable .notANumber)
    else if x.isInf then .error .overflow
    else .ok (Binary.truncExact x)
  share := doubleShare
  decade := doubleDecade
  roundTo := roundDouble
  reaches exponent x := doubleBound exponent ≤ (Binary.toRat x).abs

def tenPower (exponent : Int) : Rat :=
  if 0 ≤ exponent then ((Decimal.tenPow exponent.toNat : Int) : Rat)
  else mkRat 1 (Decimal.tenPow (-exponent).toNat)

/-- A rational number rounded to a count of decimal places; a half goes to the even digit. -/
def roundRat (places : Int) (x : Rat) : Rat :=
  let size :=
    Binary.divEven (x.num.natAbs * Decimal.tenPow places.toNat)
      (x.den * Decimal.tenPow (-places).toNat)
  let rounded : Rat :=
    if 0 ≤ places then mkRat size (Decimal.tenPow places.toNat)
    else ((size * Decimal.tenPow (-places).toNat : Int) : Rat)
  if x.num < 0 then -rounded else rounded

instance : Scalar Rat where
  add := Rat.add
  sub := Rat.sub
  mul := Rat.mul
  div := Rat.div
  ofInt n := (n : Rat)
  lt x y := x < y
  le x y := x ≤ y
  isFinite _ := true
  special? _ := none
  isNegative x := x.num < 0
  exact x := x
  floor := Rat.floor
  ceil := Rat.ceil
  truncated x := .ok (x.num.tdiv x.den)
  share count part := (count * part).floor
  decade x := Decimal.decade x.num.natAbs x.den
  roundTo := roundRat
  reaches exponent x := tenPower exponent ≤ x.abs

variable {R : Type} [Scalar R]

def isZero (x : R) : Bool :=
  le x (ofInt 0) && le (ofInt 0) x

def inGeneral (count : Nat) (x : R) : String :=
  match special? x with
  | some name => name
  | none =>
    let size := Decimal.general count (exact x).abs
    String.ofList (if isNegative x then '-' :: size else size)

end Scalar

end Reckon
