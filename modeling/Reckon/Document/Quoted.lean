import Reckon.Document.Trouble
import Reckon.Document.Word

/-!
Quoted scalars.

A line end inside the quotes counts as a space, and an empty line as a line feed. Between
apostrophes only the doubled apostrophe is special; between double quotes there are escapes.
-/

set_option autoImplicit false

namespace Reckon.Document

def escape? (c : Char) : Option Char :=
  match c with
  | '0' => some endMark
  | 'a' => some (Char.ofNat 7)
  | 'b' => some (Char.ofNat 8)
  | 't' | '\t' => some '\t'
  | 'n' => some '\n'
  | 'v' => some (Char.ofNat 11)
  | 'f' => some (Char.ofNat 12)
  | 'r' => some '\r'
  | 'e' => some (Char.ofNat 27)
  | ' ' | '"' | '\\' | '/' => some c
  | 'N' => some (Char.ofNat 0x85)
  | '_' => some (Char.ofNat 0xa0)
  | 'L' => some (Char.ofNat 0x2028)
  | 'P' => some (Char.ofNat 0x2029)
  | _ => none

def codeLength? (c : Char) : Option Nat :=
  match c with
  | 'x' => some 2
  | 'u' => some 4
  | 'U' => some 8
  | _ => none

def codeValue (digits : List Char) : Nat :=
  Decimal.radixValue 16 digits

/-- Whether a code is one half of a character beyond U+FFFF: the first half, or the second one. -/
def isHalf (second : Bool) (code : Nat) : Bool :=
  let first := if second then 0xdc00 else 0xd800
  first ≤ code && code < first + 0x400

def joined (first second : Nat) : Char :=
  Char.ofNat (0x10000 + (first - 0xd800) * 0x400 + (second - 0xdc00))

def ofCode (code : Nat) : Attempt Char :=
  if Binary.twoPow 31 ≤ code then .error (.refused .overflow)
  else if 0x110000 ≤ code then .error (.refused (.unsuitable .noCharacter))
  -- a half without the other one is no character, and something else stands for it
  else if isHalf false code || isHalf true code then .ok (Char.ofNat 0xfffd)
  else .ok (Char.ofNat code)

def folded (lineEnd : Char) (more : List Char) : List Char :=
  (if lineEnd ≠ '\n' then [lineEnd] else if more.isEmpty then [' '] else []) ++ more

def quotedBreaks : (fuel : Nat) → Cursor → Attempt (List Char × Cursor)
  | 0, _ => .error .illFormed
  | fuel + 1, c =>
    -- a marker between documents may not stand inside quotes
    if c.atMarker then .error .illFormed
    else
      let c := c.skipWhile isSpaceOrTab
      match c.lineEnd? with
      | some (lineEnd, c) => do
        let (more, c) ← quotedBreaks fuel c
        return (lineEnd :: more, c)
      | none => .ok ([], c)

def code? (length : Nat) (cs : List Char) : Option Nat :=
  let digits := cs.take length
  if digits.length = length ∧ digits.all isHexDigit then some (codeValue digits) else none

def escapedCode? : List Char → Option Nat
  | '\\' :: 'u' :: digits => code? 4 digits
  | _ => none

/-- The character whose code of the given length is here, and the place after it. -/
def coded (length : Nat) (c : Cursor) : Attempt (Char × Cursor) := do
  let code ← Attempt.ofOption (code? length c.rest)
  let after := c.skip length
  match escapedCode? after.rest with
  | some second =>
    if isHalf false code && isHalf true second then return (joined code second, after.skip 6)
    else return (← ofCode code, after)
  | none => return (← ofCode code, after)

def escaped (fuel : Nat) (c : Cursor) : Attempt (List Char × Cursor) :=
  match escape? c.peek, codeLength? c.peek, c.lineEnd? with
  | some ch, _, _ => if c.rest.isEmpty then .error .illFormed else .ok ([ch], c.next)
  | none, some length, _ => do
    let (ch, c) ← coded length c.next
    return ([ch], c)
  | none, none, some (_, c) => quotedBreaks fuel c
  | none, none, none => .error .illFormed

def quotedSpaces (fuel : Nat) (c : Cursor) : Attempt (List Char × Cursor) :=
  let (blanks, c) := c.span isSpaceOrTab
  match c.lineEnd? with
  | some (lineEnd, c) => do
    let (more, c) ← quotedBreaks fuel c
    return (folded lineEnd more, c)
  | none => .ok (blanks, c)

/-- The text of a quoted scalar from after its opening quote, and the place after the closing
one. -/
def quotedText (double : Bool) : (fuel : Nat) → Cursor → Attempt (List Char × Cursor)
  | 0, _ => .error .illFormed
  | fuel + 1, c => do
    let quote := if double then '"' else Text.apostrophe
    let onwards := fun (part : List Char) (c : Cursor) => do
      let (more, c) ← quotedText double fuel c
      return (part ++ more, c)
    match c.rest with
    | [] => .error .illFormed
    | ch :: rest =>
      if ch = quote then
        if !double && rest.headD endMark == quote then onwards [quote] (c.skip 2)
        else .ok ([], c.next)
      else if isBlankOrEnd ch then
        let (part, c) ← quotedSpaces fuel c
        onwards part c
      else if double && ch == '\\' then
        let (part, c) ← escaped fuel c.next
        onwards part c
      else onwards [ch] c.next

end Reckon.Document
