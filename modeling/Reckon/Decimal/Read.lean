import Reckon.Binary
import Reckon.Decimal.Numeral
import Reckon.Text.Blank
import Reckon.Text.Digit

/-!
Reading decimal numerals.

A numeral may have blanks around it, a sign, digits of any script, single underscores between
digits, a point and an exponent; infinities and not-a-number are read by name. Its value is the
double nearest to what is written.
-/

set_option autoImplicit false

namespace Reckon.Decimal

def digitsValue (cs : List Char) : Nat :=
  cs.foldl (fun n c => 10 * n + (c.toNat - 48)) 0

/-- The double nearest to `mantissa · 10^exponent`. -/
def scaled (negative : Bool) (mantissa : Nat) (exponent : Int) : Float :=
  let top : Int := digitCount mantissa + exponent
  -- values beyond 10^310 or below 10^-330 are decided by their size alone
  if mantissa = 0 ∨ top < -330 then Binary.ofRatio negative 0 1
  else if 310 < top then Binary.ofRatio negative (Binary.twoPow 1024) 1
  else if 0 ≤ exponent then Binary.ofRatio negative (mantissa * tenPow exponent.toNat) 1
  else Binary.ofRatio negative mantissa (tenPow (-exponent).toNat)

def spanDigits (cs : List Char) : List Char × List Char :=
  (cs.takeWhile Text.isAsciiDigit, cs.dropWhile Text.isAsciiDigit)

def exponent? : List Char → Option (Int × List Char)
  | mark :: cs =>
    if mark = 'e' ∨ mark = 'E' then
      let (negative, cs) := match cs with
        | '-' :: rest => (true, rest)
        | '+' :: rest => (false, rest)
        | rest => (false, rest)
      match spanDigits cs with
      | ([], _) => none
      | (found, rest) =>
        let size : Int := digitsValue found
        some (if negative then -size else size, rest)
    else none
  | [] => none

def fraction (cs : List Char) : List Char × List Char :=
  match cs with
  | '.' :: rest => spanDigits rest
  | rest => ([], rest)

/-- The value of an unsigned numeral at the front of the characters, and what follows it. Digits
must stand before or after the point, and an exponent mark without digits is not part of it. -/
def unsigned? (negative : Bool) (cs : List Char) : Option (Float × List Char) :=
  let (units, cs) := spanDigits cs
  let (places, cs) := fraction cs
  if units.isEmpty && places.isEmpty then none
  else
    let mantissa := digitsValue (units ++ places)
    match exponent? cs with
    | some (exponent, rest) => some (scaled negative mantissa (exponent - places.length), rest)
    | none => some (scaled negative mantissa (-(places.length : Int)), cs)

/-- The characters without the underscores between digits; any other underscore is refused. -/
def dropUnderscores? (afterDigit : Bool) : List Char → Option (List Char)
  | [] => some []
  | '_' :: c :: rest =>
    if afterDigit && Text.isAsciiDigit c then (dropUnderscores? true rest).map (c :: ·) else none
  | c :: rest =>
    if c = '_' then none else (dropUnderscores? (Text.isAsciiDigit c) rest).map (c :: ·)

def asciiDigits (cs : List Char) : List Char :=
  cs.map fun c =>
    match Text.digit? c with
    | some value => digitChar value
    | none => c

/-- The characters of a numeral: without outer padding and underscores, in ASCII digits. -/
def normalized? (s : String) : Option (List Char) :=
  dropUnderscores? false (asciiDigits (Text.dropAround Text.isPadding s.toList))

def splitSign : List Char → Bool × List Char
  | '-' :: rest => (true, rest)
  | '+' :: rest => (false, rest)
  | rest => (false, rest)

def real? (s : String) : Option Float := do
  let cs ← normalized? s
  let (negative, body) := splitSign cs
  let name := String.ofList (body.map Char.toLower)
  if name = "inf" ∨ name = "infinity" then
    return if negative then -Binary.infinity else Binary.infinity
  else if name = "nan" then return Binary.nan
  else
    match unsigned? negative body with
    | some (value, []) => return value
    | _ => none

end Reckon.Decimal
