import Reckon.Binary
import Reckon.Decimal.Numeral

/-!
The shortest decimal numeral of a double: the fewest digits that read back as it, and of those the
numeral nearest to it.

The numerals that read back as a double are those in an interval around it, half way to each
neighbour; the ends belong to it when the mantissa is even. For one digit, two digits and so on the
two neighbours of the double on the grid of that many digits are tested.
-/

set_option autoImplicit false

namespace Reckon.Decimal

structure Interval where
  low : Nat
  value : Nat
  high : Nat
  den : Nat
  closed : Bool

namespace Interval

/-- The numerals that round to `mantissa · 2^exponent`. -/
def ofParts (mantissa : Nat) (exponent : Int) : Interval :=
  let up := Binary.twoPow exponent.toNat
  let value := 4 * mantissa * up
  -- below a power of two the neighbour is only half as far away, unless that power starts the
  -- least normal doubles
  let below := if mantissa = Binary.twoPow 52 ∧ -1074 < exponent then 1 else 2
  { low := value - below * up
    value
    high := value + 2 * up
    den := 4 * Binary.twoPow (-exponent).toNat
    closed := mantissa % 2 == 0 }

/-- The nearest point of the grid `10^place` in the interval, as a multiple of that power. -/
def gridPoint? (i : Interval) (place : Int) : Option Nat :=
  let scale := tenPow (-place).toNat
  let step := i.den * tenPow place.toNat
  let value := i.value * scale
  let down := value / step
  let above := (down + 1) * step
  let downIn := if i.closed then i.low * scale ≤ down * step else i.low * scale < down * step
  let upIn := if i.closed then above ≤ i.high * scale else above < i.high * scale
  let rest := value - down * step
  match decide downIn, decide upIn with
  | true, true =>
    if 2 * rest < step then some down
    else if step < 2 * rest then some (down + 1)
    else if down % 2 = 0 then some down else some (down + 1)
  | true, false => some down
  | false, true => some (down + 1)
  | false, false => none

/-- The first grid with a point in the interval, from the given one down to finer ones. -/
def firstPoint (i : Interval) : (grids : Nat) → (place : Int) → Nat × Int
  | 0, place => (i.value * tenPow (-place).toNat / (i.den * tenPow place.toNat), place)
  | grids + 1, place =>
    match i.gridPoint? place with
    | some point => (point, place)
    | none => firstPoint i grids (place - 1)

end Interval

/-- The shortest numeral of a finite double that is not zero, without its sign. -/
def shortest (x : Float) : Numeral :=
  let (mantissa, exponent) := Binary.parts x
  let interval := Interval.ofParts mantissa exponent
  -- seventeen digits always suffice
  let (point, place) := interval.firstPoint 17 (decade interval.value interval.den)
  let digits := digits point
  Numeral.stripZeros { digits, exponent := place + digits.length - 1 }

structure Layout where
  /-- The greatest exponent that is still written positionally. -/
  last : Int
  /-- The least exponent that is still written positionally. -/
  first : Int
  /-- Whether a point and a zero are put before the exponent of a single digit. -/
  pointBeforeExponent : Bool
  nan : String
  infinity : String

/-- A double in full: the shortest digits that read back, with a point or an exponent so that it is
not taken for a whole number. -/
def inFull (layout : Layout) (x : Float) : String :=
  let sign := if Binary.isNegative x then "-" else ""
  if x.isNaN then layout.nan
  else if x.isInf then sign ++ layout.infinity
  else if x == 0 then sign ++ "0.0"
  else
    let numeral := shortest x
    let body :=
      if layout.first ≤ numeral.exponent ∧ numeral.exponent ≤ layout.last then
        let written := numeral.positional
        if written.contains '.' then written else written ++ ['.', '0']
      else
        match numeral.digits with
        | [digit] =>
          if layout.pointBeforeExponent then
            Numeral.exponential 'e' { numeral with digits := [digit, '0'] }
          else numeral.exponential 'e'
        | _ => numeral.exponential 'e'
    sign ++ String.ofList body

/-- Doubles in messages and answers: positional from 0.0001 up to sixteen digits. -/
def plainLayout : Layout :=
  { last := 15, first := -4, pointBeforeExponent := false, nan := "nan", infinity := "inf" }

def plain (x : Float) : String :=
  inFull plainLayout x

end Reckon.Decimal
