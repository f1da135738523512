import Reckon.Document.Base64
import Reckon.Document.Word
import Reckon.Text.Small
import Reckon.Value.Reading

/-!
Scalars of documents: the value of a word, given what it is.

A number may be written in a base or in places of base sixty. A word that cannot be what its tag
says is refused, or is no part of a document at all.
-/

set_option autoImplicit false

namespace Reckon.Document

/-- The characters without underscores and without a sign, which may be minus. -/
def unsignedDigits (cs : List Char) : Attempt (Bool × List Char) :=
  match cs.filter (· != '_') with
  -- the sign is looked for in the first character
  | [] => .error (.refused .outOfRange)
  | cs => .ok (Decimal.splitSign cs)

def wholeIn (base : Nat) (digits : List Char) : Attempt Int :=
  let written := String.ofList digits
  .ofExcept (Value.wholeOf base (.text written) written)

def sixties (places : List Int) : Int :=
  places.foldl (fun n place => 60 * n + place) 0

/-- The whole number that a word writes: in binary, octal or hexadecimal digits after a zero, in
decimal digits, or in places of base sixty. -/
def wholeNumber (word : List Char) : Attempt Int := do
  let (negative, body) ← unsignedDigits word
  let size ← match body with
    | [] => throw (.refused .outOfRange)
    | ['0'] => pure 0
    | '0' :: 'b' :: digits => wholeIn 2 digits
    | '0' :: 'x' :: digits => wholeIn 16 digits
    | '0' :: _ => wholeIn 8 body
    | body =>
      if body.contains ':' then do
        let places ← (Text.fields ':' body).mapM (wholeIn 10)
        pure (sixties places)
      else wholeIn 10 body
  return if negative then -size else size

def realIn (digits : List Char) : Attempt Float :=
  let written := String.ofList digits
  .ofExcept (Value.realOf (.text written) written)

/-- The sum of places of base sixty, the last one first; the first one is worth `weight`. -/
def sixtiesSum (sum : Float) (weight : Nat) : List Float → Attempt Float
  | [] => .ok sum
  | place :: rest => do
    let scale ← .ofExcept (Value.toReal (.int weight))
    sixtiesSum (sum + place * scale) (60 * weight) rest

/-- The double that a word writes: an infinity, not a number, a numeral, or places of base sixty. -/
def realNumber (word : List Char) : Attempt Float := do
  let (negative, body) ← unsignedDigits (Text.smallChars word)
  let size ←
    if body = ".inf".toList then pure Binary.infinity
    else if body = ".nan".toList then pure Binary.nan
    else if body.contains ':' then do
      let places ← (Text.fields ':' body).mapM realIn
      sixtiesSum 0 1 places.reverse
    else realIn body
  return if negative then -size else size

def ranged (what : String) (first last n : Nat) : Attempt Unit :=
  if first ≤ n ∧ n ≤ last then .ok () else .error (.refused (.unsuitable (.beyond what first last)))

def checkDay (m : WrittenMoment) : Attempt Unit := do
  if m.year = 0 then throw (.refused (.unsuitable .yearZero))
  ranged "month" 1 12 m.month
  if m.day = 0 ∨ Calendar.daysIn m.year m.month < m.day then
    throw (.refused (.unsuitable .noSuchDay))

def microseconds (digits : List Char) : Nat :=
  Decimal.digitsValue ((digits ++ List.replicate 6 '0').take 6)

def WrittenMoment.value (m : WrittenMoment) : Attempt Value :=
  match m.time with
  | none => do
    checkDay m
    return .date m.year m.month m.day
  | some (hour, minute, second, fraction) => do
    -- a zone must be less than a day away
    if let some minutes := m.offset then
      if 1440 ≤ minutes.natAbs then throw (.refused (.unsuitable (.zoneOffset minutes)))
    checkDay m
    ranged "hour" 0 23 hour
    ranged "minute" 0 59 minute
    ranged "second" 0 59 second
    return .moment ⟨m.year, m.month, m.day, hour, minute, second, microseconds fraction, m.offset⟩

def truthOf (word : List Char) : Attempt Value :=
  let written := String.ofList (Text.smallChars word)
  match boolWords.lookup written with
  | some b => .ok (.bool b)
  | none => .error (.refused (.absent (.entry written)))

def bytesOf (word : List Char) : Attempt Value := do
  if word.any (128 ≤ ·.toNat) then throw .illFormed
  let content ← Attempt.ofOption (Base64.read? word)
  return .bytes content

def Tag.scalarValue (word : List Char) : Tag → Attempt Value
  | null => .ok .null
  | bool => truthOf word
  | int => do return .int (← wholeNumber word)
  | real => do return .real (← realNumber word)
  | bytes => bytesOf word
  | moment =>
    match writtenMoment? (Text.dropLineFeed word) with
    | some m => m.value
    | none => .error (.refused .noSuchPart)
  | text => .ok (.text (String.ofList word))
  | _ => .error .illFormed

end Reckon.Document
