/-!
Decimal numerals: a run of digits and the power of ten of the first one, written positionally or
with an exponent.
-/

set_option autoImplicit false

namespace Reckon.Decimal

def tenPow (n : Nat) : Nat := Nat.pow 10 n

def digitChar (n : Nat) : Char :=
  Char.ofNat (48 + n)

def digitsBefore : (fuel : Nat) → Nat → List Char → List Char
  | 0, _, rest => rest
  | fuel + 1, n, rest =>
    if n < 10 then digitChar n :: rest
    else digitsBefore fuel (n / 10) (digitChar (n % 10) :: rest)

def digits (n : Nat) : List Char :=
  digitsBefore (n.log2 + 1) n []

def digitCount (n : Nat) : Nat :=
  (digits n).length

def whole (n : Int) : String :=
  if n < 0 then String.ofList ('-' :: digits n.natAbs) else String.ofList (digits n.natAbs)

def decade (num den : Nat) : Int :=
  let guess : Int := (digitCount num : Int) - digitCount den
  if (if 0 ≤ guess then den * tenPow guess.toNat ≤ num else den ≤ num * tenPow (-guess).toNat)
  then guess else guess - 1

structure Numeral where
  digits : List Char
  exponent : Int
  deriving DecidableEq, Repr

namespace Numeral

def stripZeros (n : Numeral) : Numeral :=
  match n.digits with
  | [] => n
  | first :: rest => { n with digits := first :: (rest.reverse.dropWhile (· == '0')).reverse }

/-- Written out without an exponent: a zero stands before the point of a fraction, and a whole
number has no point. -/
def positional (n : Numeral) : List Char :=
  if n.exponent < 0 then
    ['0', '.'] ++ List.replicate ((-n.exponent).toNat - 1) '0' ++ n.digits
  else
    let places := n.exponent.toNat + 1
    let units := n.digits.take places ++ List.replicate (places - n.digits.length) '0'
    match n.digits.drop places with
    | [] => units
    | fraction => units ++ '.' :: fraction

/-- Written with one digit before the point and a signed exponent of at least two digits. -/
def exponential (mark : Char) (n : Numeral) : List Char :=
  let size := Decimal.digits n.exponent.natAbs
  let exponent := if size.length < 2 then '0' :: size else size
  let mantissa := match n.digits with
    | [] => []
    | [first] => [first]
    | first :: rest => first :: '.' :: rest
  mantissa ++ mark :: (if n.exponent < 0 then '-' else '+') :: exponent

end Numeral

end Reckon.Decimal
