/-!
Doubles read exactly.

A finite double is a sign, a whole mantissa below 2^53 and a power of two. Reading it that way gives
its exact value, its rank in the order of the doubles and its whole parts, all in exact arithmetic;
the other direction rounds a ratio of whole numbers to the nearest double, a tie going to the even
mantissa.
-/

set_option autoImplicit false

namespace Reckon.Binary

def twoPow (n : Nat) : Nat := Nat.pow 2 n

/-- The quotient rounded to the nearest whole number; a half goes to the even one. -/
def divEven (a b : Nat) : Nat :=
  let q := a / b
  let r := a % b
  if 2 * r < b then q
  else if b < 2 * r then q + 1
  else if q % 2 = 0 then q else q + 1

/-- The number rounded to `bits` significant bits; a tie goes to the even neighbour. -/
def roundBits (bits n : Nat) : Nat :=
  let step := twoPow (n.log2 + 1 - bits)
  divEven n step * step

def isNegative (x : Float) : Bool :=
  x.toBits.toNat / twoPow 63 == 1

def parts (x : Float) : Nat × Int :=
  let bits : Nat := x.toBits.toNat
  let fraction : Nat := bits % twoPow 52
  let field : Nat := bits / twoPow 52 % twoPow 11
  if field = 0 then (fraction, -1074) else (fraction + twoPow 52, (field : Int) - 1075)

def signedParts (x : Float) : Int × Int :=
  let (mantissa, exponent) := parts x
  (if isNegative x then -(mantissa : Int) else mantissa, exponent)

def toRat (x : Float) : Rat :=
  let (mantissa, exponent) := signedParts x
  if 0 ≤ exponent then ((mantissa * twoPow exponent.toNat : Int) : Rat)
  else mkRat mantissa (twoPow (-exponent).toNat)

/-- The place of a double in the order of the doubles: the two zeros share a place, and an infinity
stands beyond every finite double of its sign. -/
def rank (x : Float) : Int :=
  let size : Nat := x.toBits.toNat % twoPow 63
  if isNegative x then -(size : Int) else size

def leastCounter : Int := -(twoPow 63 : Nat)

def isCounter (n : Int) : Bool :=
  leastCounter ≤ n && n < -leastCounter

/-- The whole number that a 64-bit counter holds for `n`: the least one stands for every number
outside its range. -/
def toCounter (n : Int) : Int :=
  if leastCounter ≤ n ∧ n < -leastCounter then n else leastCounter

def floorExact (x : Float) : Int :=
  let (mantissa, exponent) := signedParts x
  if 0 ≤ exponent then mantissa * twoPow exponent.toNat
  else mantissa.fdiv (twoPow (-exponent).toNat)

def truncExact (x : Float) : Int :=
  let (mantissa, exponent) := signedParts x
  if 0 ≤ exponent then mantissa * twoPow exponent.toNat
  else mantissa.tdiv (twoPow (-exponent).toNat)

def floor (x : Float) : Int :=
  if x.isFinite then toCounter (floorExact x) else leastCounter

def ceil (x : Float) : Int :=
  if x.isFinite then toCounter (-floorExact (-x)) else leastCounter

def nearestWhole (x : Float) : Int :=
  let (mantissa, exponent) := parts x
  let size : Nat :=
    if 0 ≤ exponent then mantissa * twoPow exponent.toNat
    else divEven mantissa (twoPow (-exponent).toNat)
  if isNegative x then -(size : Int) else size

/-- The double with the given sign nearest to the ratio `num / den`: its last mantissa bit is worth
at least 2^-1074, and a ratio beyond the doubles is an infinity. -/
def ofRatio (negative : Bool) (num den : Nat) : Float :=
  let sign : Nat := if negative then twoPow 63 else 0
  if num = 0 then Float.ofBits sign.toUInt64
  else
    let guess : Int := (num.log2 : Int) - den.log2
    let top : Int :=
      if (if 0 ≤ guess then den * twoPow guess.toNat ≤ num else den ≤ num * twoPow (-guess).toNat)
      then guess else guess - 1
    let exponent : Int := max (top - 52) (-1074)
    let mantissa :=
      if 0 ≤ exponent then divEven num (den * twoPow exponent.toNat)
      else divEven (num * twoPow (-exponent).toNat) den
    let bits : Nat :=
      if mantissa < twoPow 52 then mantissa
      else (exponent + 1075).toNat * twoPow 52 + (mantissa - twoPow 52)
    Float.ofBits (sign + min bits (2047 * twoPow 52)).toUInt64

/-- A double rounded to a whole number; a half goes to the even one, and the sign stays. -/
def roundWhole (x : Float) : Float :=
  if x.isFinite then ofRatio (isNegative x) (nearestWhole x).natAbs 1 else x

def ofInt? (n : Int) : Option Float :=
  let x := ofRatio (n < 0) n.natAbs 1
  if x.isFinite then some x else none

def nan : Float := Float.ofBits 0x7ff8000000000000

def infinity : Float := Float.ofBits 0x7ff0000000000000

def pi : Float := 3.141592653589793

def special? (x : Float) : Option String :=
  if x.isNaN then some "nan"
  else if x.isInf then some (if isNegative x then "-inf" else "inf")
  else none

end Reckon.Binary
