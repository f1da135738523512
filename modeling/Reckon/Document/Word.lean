import Reckon.Decimal.Read
import Reckon.Document.Tag
import Reckon.Value.Moment

/-!
Plain words: what a word is taken for by its looks.

A word that looks like nothing else is a text. The other kinds are truth values, numbers in several
notations, moments, the marks of records, and the null in its spellings. A line end after a word
does not count.
-/

set_option autoImplicit false

namespace Reckon.Document

def isDigitOrLine (c : Char) : Bool :=
  Text.isAsciiDigit c || c == '_'

def spellings (word : String) : List String :=
  [word, word.capitalize, word.toUpper]

def boolWords : List (String × Bool) :=
  [("yes", true), ("no", false), ("true", true), ("false", false), ("on", true), ("off", false)]

def bool? (word : String) : Option Bool :=
  (boolWords.find? fun (known, _) => (spellings known).contains word).map Prod.snd

def isExponent : List Char → Bool
  | [] => true
  | mark :: sign :: digits =>
    (mark == 'e' || mark == 'E') && (sign == '-' || sign == '+')
      && !digits.isEmpty && digits.all Text.isAsciiDigit
  | _ => false

/-- Whether the characters are digits and underscores with an exponent or without one. -/
def isFraction (cs : List Char) : Bool :=
  isExponent (cs.dropWhile isDigitOrLine)

def isSixtieth : List Char → Bool
  | [digit] => Text.isAsciiDigit digit
  | [tens, digit] => '0' ≤ tens && tens ≤ '5' && Text.isAsciiDigit digit
  | _ => false

/-- Whether the characters begin with a digit and go on with digits and underscores. -/
def isUnits : List Char → Bool
  | [] => false
  | first :: rest => Text.isAsciiDigit first && rest.all isDigitOrLine

/-- Whether the characters are a number of base sixty whose last place has a fraction. -/
def isSixtiethReal (cs : List Char) : Bool :=
  match Text.cut? '.' cs with
  | none => false
  | some (places, fraction) =>
    match Text.fields ':' places with
    | units :: place :: places =>
      isUnits units && (place :: places).all isSixtieth && fraction.all isDigitOrLine
    | _ => false

/-- Whether the characters are a double: a point is part of it, and a sign of any exponent. -/
def isReal (cs : List Char) : Bool :=
  let (_, body) := Decimal.splitSign cs
  let positional := match Text.cut? '.' body with
    | some (units, fraction) => isUnits units && isFraction fraction
    | none => false
  let leadingPoint := match cs with
    | '.' :: first :: rest => Text.isAsciiDigit first && isFraction rest
    | _ => false
  positional || leadingPoint || isSixtiethReal body
    || [".inf", ".Inf", ".INF"].contains (String.ofList body)
    || [".nan", ".NaN", ".NAN"].contains (String.ofList cs)

/-- Whether the characters are a whole number: in binary, octal or hexadecimal digits, in decimal
digits, or in base sixty. -/
def isInt (cs : List Char) : Bool :=
  let (_, body) := Decimal.splitSign cs
  match body with
  | ['0'] => true
  | '0' :: 'b' :: digits => !digits.isEmpty && digits.all fun c => c == '0' || c == '1' || c == '_'
  | '0' :: 'x' :: digits => !digits.isEmpty && digits.all fun c => isHexDigit c || c == '_'
  | '0' :: digits => digits.all fun c => ('0' ≤ c && c ≤ '7') || c == '_'
  | body =>
    match Text.fields ':' body with
    | units :: places => isUnits units && places.all isSixtieth
    | [] => false

def isSpaceOrTab (c : Char) : Bool :=
  c == ' ' || c == '\t'

structure WrittenMoment where
  year : Nat
  month : Nat
  day : Nat
  /-- The hour, the minute, the second and the digits after the point, if there is a time. -/
  time : Option (Nat × Nat × Nat × List Char)
  /-- The minutes by which the clock is ahead, if a zone is written. -/
  offset : Option Int

/-- A number of at least `least` and at most `most` digits at the front, and what follows it. -/
def span? (least most : Nat) (cs : List Char) : Option (Nat × List Char) :=
  let found := (cs.take most).takeWhile Text.isAsciiDigit
  if least ≤ found.length then some (Decimal.digitsValue found, cs.drop found.length) else none

def after? (c : Char) : List Char → Option (List Char)
  | [] => none
  | first :: rest => if first = c then some rest else none

def afterDate? : List Char → Option (List Char)
  | [] => none
  | c :: rest =>
    if c == 'T' || c == 't' then some rest
    else if isSpaceOrTab c then some (rest.dropWhile isSpaceOrTab)
    else none

def offsetMinutes? : List Char → Option Nat
  | [] => some 0
  | ':' :: minutes =>
    match span? 2 2 minutes with
    | some (n, []) => some n
    | _ => none
  | _ => none

/-- The zone that the characters name: none at all, universal time, or an offset in hours and
minutes. -/
def zone? : List Char → Option (Option Int)
  | [] => some none
  | ['Z'] => some (some 0)
  | sign :: offset => do
    let (hours, rest) ← span? 1 2 offset
    let minutes ← offsetMinutes? rest
    let size : Int := 60 * hours + minutes
    if sign = '+' then some (some size) else if sign = '-' then some (some (-size)) else none

def withTime? (year month day : Nat) (cs : List Char) : Option WrittenMoment := do
  let (hour, cs) ← span? 1 2 cs
  let (minute, cs) ← span? 2 2 (← after? ':' cs)
  let (second, cs) ← span? 2 2 (← after? ':' cs)
  let (fraction, cs) := match cs with
    | '.' :: rest => (rest.takeWhile Text.isAsciiDigit, rest.dropWhile Text.isAsciiDigit)
    | rest => ([], rest)
  let zone := cs.dropWhile isSpaceOrTab
  if zone.isEmpty && !cs.isEmpty then none
  return ⟨year, month, day, some (hour, minute, second, fraction), ← zone? zone⟩

def writtenMoment? (cs : List Char) : Option WrittenMoment := do
  let (year, rest) ← span? 4 4 cs
  let (month, rest) ← span? 1 2 (← after? '-' rest)
  let (day, rest) ← span? 1 2 (← after? '-' rest)
  match rest with
  | [] => return ⟨year, month, day, none, none⟩
  | rest => withTime? year month day (← afterDate? rest)

/-- Whether the characters look like a moment. A date alone has two digits for month and day. -/
def isMoment (cs : List Char) : Bool :=
  match writtenMoment? cs with
  | some m => m.time.isSome || cs.length == 10
  | none => false

def nullWords : List String := ["~", "null", "Null", "NULL"]

def Tag.ofWord (word : List Char) : Tag :=
  let cs := Text.dropLineFeed word
  let written := String.ofList cs
  if word.isEmpty then .null
  else if cs.isEmpty then .text
  else if (bool? written).isSome then .bool
  else if isReal cs then .real
  else if isInt cs then .int
  else if written = "<<" then .merge
  else if nullWords.contains written then .null
  else if isMoment cs then .moment
  else if written = "=" then .equals
  else if ["!", "&", "*"].contains written then .other
  else .text

end Reckon.Document
