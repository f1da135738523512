import Reckon.Text.Digit

/-!
Bytes written in 64 signs, four signs for three bytes.

Reading ignores other characters and ends at the padding of a group that it completes. Writing puts
at most 57 bytes on a line.
-/

set_option autoImplicit false

namespace Reckon.Document.Base64

def sign (n : Nat) : Char :=
  if n < 26 then Char.ofNat (65 + n)
  else if n < 52 then Char.ofNat (71 + n)
  else if n < 62 then Char.ofNat (n - 4)
  else if n = 62 then '+' else '/'

def number? (c : Char) : Option Nat :=
  if 'A' ≤ c && c ≤ 'Z' then some (c.toNat - 65)
  else if 'a' ≤ c && c ≤ 'z' then some (c.toNat - 71)
  else if Text.isAsciiDigit c then some (c.toNat + 4)
  else if c = '+' then some 62
  else if c = '/' then some 63
  else none

/-- The bytes that characters write. `place` counts the signs of the group so far, `left` holds the
bits that do not fill a byte yet, and `pads` counts the padding just before. -/
def readFrom (place left pads : Nat) : List Char → Option (List UInt8)
  | [] => if place = 0 then some [] else none
  | '=' :: rest =>
    if 2 ≤ place then
      if 4 ≤ place + (pads + 1) then some [] else readFrom place left (pads + 1) rest
    else readFrom place left pads rest
  | c :: rest =>
    match number? c with
    | none => readFrom place left pads rest
    | some n =>
      match place with
      | 0 => readFrom 1 n 0 rest
      | 1 => (readFrom 2 (n % 16) 0 rest).map ((left * 4 + n / 16).toUInt8 :: ·)
      | 2 => (readFrom 3 (n % 4) 0 rest).map ((left * 16 + n / 4).toUInt8 :: ·)
      | _ => (readFrom 0 0 0 rest).map ((left * 64 + n).toUInt8 :: ·)

def read? (cs : List Char) : Option (List UInt8) :=
  readFrom 0 0 0 cs

def signs : List UInt8 → List Char
  | a :: b :: c :: rest =>
    let (x, y, z) := (a.toNat, b.toNat, c.toNat)
    [sign (x / 4), sign (x % 4 * 16 + y / 16), sign (y % 16 * 4 + z / 64), sign (z % 64)]
      ++ signs rest
  | [a, b] =>
    let (x, y) := (a.toNat, b.toNat)
    [sign (x / 4), sign (x % 4 * 16 + y / 16), sign (y % 16 * 4), '=']
  | [a] => [sign (a.toNat / 4), sign (a.toNat % 4 * 16), '=', '=']
  | [] => []

def lineLength : Nat := 57

def lines : (fuel : Nat) → List UInt8 → List (List Char)
  | 0, _ | _, [] => []
  | fuel + 1, content =>
    signs (content.take lineLength) :: lines fuel (content.drop lineLength)

end Reckon.Document.Base64
