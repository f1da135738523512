import Reckon.Text.Small
import Reckon.Value.Reading

/-!
Figures: numbers in a report, and the style they are written in.

A figure shows a number with a count of significant digits, either written out or with an exponent.
Settings are looked up in the figure first and around it after that.
-/

set_option autoImplicit false

namespace Reckon

/-- Settings of figures, each of which may be left open. They are kept as they were given and read
when a figure is written. -/
structure Style where
  digits : Option Value
  layout : Option Value
  /-- The power of ten from which on, or below the inverse of which, the layout `auto` uses an
  exponent. -/
  threshold : Option Value
  lowercase : Option Value
  suffix : Option Value

namespace Style

def empty : Style := ⟨none, none, none, none, none⟩

def within (inner outer : Style) : Style :=
  { digits := inner.digits.or outer.digits
    layout := inner.layout.or outer.layout
    threshold := inner.threshold.or outer.threshold
    lowercase := inner.lowercase.or outer.lowercase
    suffix := inner.suffix.or outer.suffix }

def ofEntries (kept : List String) (entries : Entries) : Except Failure Style :=
  if kept.any fun name => (entries.get? name).isSome then .error (.unfit .reservedName)
  else
    .ok {
      digits := entries.get? "n"
      layout := entries.get? "fmt"
      threshold := entries.get? "thresh"
      lowercase := entries.get? "elower"
      suffix := entries.get? "suffix" }

end Style

inductive Precision where
  | whole (digits : Nat)
  | fractional (digits : Float)

inductive Threshold where
  | whole (exponent : Int)
  | fractional (exponent : Float)

namespace Style

def layoutName (style : Style) : Except Failure String :=
  match style.layout with
  | none => .ok "auto"
  | some (.text name) =>
    if numberFormats.contains (Text.toSmall name) then .ok (Text.toSmall name)
    else .error (.unsuitable .numberFormat)
  | some _ => .error .noSuchPart

/-- The count of significant digits, which is four unless it is told and one at least. -/
def precision (style : Style) : Except Failure Precision :=
  match style.digits with
  | none => .ok (.whole 4)
  | some (.int n) => if n < 1 then .error (.unsuitable .figureCount) else .ok (.whole n.toNat)
  | some (.bool b) => if b then .ok (.whole 1) else .error (.unsuitable .figureCount)
  | some (.real x) => if x < 1 then .error (.unsuitable .figureCount) else .ok (.fractional x)
  | some _ => .error (.unfit .kind)

/-- The power of ten at which the layout `auto` changes, the sixth unless it is told. -/
def thresholdPower (style : Style) : Except Failure Threshold :=
  match style.threshold with
  | none => .ok (.whole 6)
  | some (.int n) => .ok (.whole n)
  | some (.bool b) => .ok (.whole (if b then 1 else 0))
  | some (.real x) => .ok (.fractional x)
  | some _ => .error (.unfit .kind)

def exponentMark (style : Style) : Except Failure Char := do
  let isSmall ← match style.lowercase with
    | none => pure true
    | some v => v.truth
  return if isSmall then 'e' else 'E'

def suffixText (style : Style) : Except Failure String :=
  match style.suffix with
  | none => .ok ""
  | some (.text s) => .ok s
  | some _ => .error (.unfit .kind)

end Style

/-- A number in a report, which may be missing, with its own settings. -/
structure Figure (R : Type) where
  value : Option R
  style : Style

namespace Figure

variable {R : Type} [Scalar R]

def signed (x : R) (size : List Char) : List Char :=
  if Scalar.isNegative x then '-' :: size else size

/-- The number rounded to `digits` significant digits and written out, with as many places after
the point as the rounding keeps. -/
def writtenOut (digits : Nat) (x : R) : String :=
  let places : Int := digits - 1 - Scalar.decade x
  let rounded := Scalar.roundTo places x
  match Scalar.special? rounded with
  | some name => name
  | none =>
    String.ofList (signed rounded (Decimal.fixed places.toNat (Scalar.exact rounded).abs))

def withExponent (mark : Char) (digits : Nat) (x : R) : String :=
  String.ofList (signed x (Decimal.scientific mark digits (Scalar.exact x).abs))

/-- Refuses a whole exponent of ten that is negative and beyond the doubles: the power is a double
then, and its exponent has to be one. -/
def checkExponent (exponent : Int) : Except Failure Unit :=
  if exponent < 0 ∧ (Binary.ofInt? exponent).isNone then .error .overflow else .ok ()

def realPower (exponent : Float) : Except Failure Float :=
  let power := Float.pow 10 exponent
  if power.isInf && exponent.isFinite then .error .overflow else .ok power

def isAtLeast (bound : Float) (x : R) : Bool :=
  bound.isFinite && Binary.toRat bound ≤ (Scalar.exact x).abs

def isBelow (bound : Float) (x : R) : Bool :=
  !bound.isNaN && (bound.isInf || (Scalar.exact x).abs < Binary.toRat bound)

/-- Whether the layout `auto` uses an exponent: the number reaches ten to the threshold, or else does
not reach the inverse of that. -/
def usesExponent (threshold : Threshold) (x : R) : Except Failure Bool :=
  match threshold with
  | .whole exponent => do
    checkExponent exponent
    if Scalar.reaches exponent x then return true
    checkExponent (-exponent)
    return !Scalar.reaches (-exponent) x
  | .fractional exponent => do
    let bound ← realPower exponent
    if isAtLeast bound x then return true
    let bound ← realPower (-exponent)
    return isBelow bound x

def placeLimit : Nat := Binary.twoPow 31 - 1

def inPlaces (precision : Precision) (x : R) : Except Failure String :=
  match precision with
  | .whole digits =>
    if placeLimit < ((digits : Int) - 1 - Scalar.decade x).natAbs then .error .overflow
    else .ok (writtenOut digits x)
  | .fractional _ => .error (.unfit .kind)

/-- Why the layout with an exponent has no room for so many digits, if it has none: the count of the
places is written out and read again. -/
def digitTrouble? (digits : Nat) : Option Unsuitable :=
  if Decimal.unwritten < digits then some .unwritten
  else if Binary.twoPow 63 < digits then some .tooManyPlaceDigits
  else if placeLimit + 1 < digits then some .precisionLimit
  else none

def scientific (mark : Char) (precision : Precision) (x : R) : Except Failure String :=
  match precision with
  | .whole digits =>
    match digitTrouble? digits with
    | some reason => .error (.unsuitable reason)
    -- the greatest count of places that is read is taken for none at all
    | none => .ok (withExponent mark (if digits = placeLimit + 1 then 1 else digits) x)
  | .fractional digits => .error (.unsuitable (.placeCount (digits - 1) mark))

def ordinary (style : Style) (layout : String) (mark : Char) (precision : Precision) (x : R) :
    Except Failure String := do
  let exponential ←
    if layout = "auto" then do usesExponent (← style.thresholdPower) x
    else pure (layout != "decimal")
  if exponential then scientific mark precision x else inPlaces precision x

/-- The text of a figure inside the settings around it: four digits, the layout `auto` and a
threshold of six unless something else is set. -/
def text (figure : Figure R) (outer : Style) : Except Failure String := do
  let style := figure.style.within outer
  let mark ← style.exponentMark
  let layout ← style.layoutName
  let precision ← style.precision
  let number ← match figure.value with
    | none => pure "nan"
    | some x =>
      match Scalar.special? x with
      | some name => pure name
      | none => if Scalar.isZero x then pure "0" else ordinary style layout mark precision x
  return number ++ (← style.suffixText)

end Figure

end Reckon
