import Reckon.Document.Cursor
import Reckon.Document.Trouble

/-!
Tags: what a node is, and the names that say so.

A tag is written as a handle and a suffix. The handle stands for the start of a name, by default or
by a directive; a name in angles is written in full.
-/

set_option autoImplicit false

namespace Reckon.Document

inductive Tag where
  | null
  | bool
  | int
  | real
  | bytes
  | moment
  | text
  | list
  | record
  | set
  | pairs
  | merge
  | equals
  | other
  deriving DecidableEq, Repr, Inhabited

namespace Tag

def standardStart : String := "tag:yaml.org,2002:"

def standardNames : List (String × Tag) :=
  [("null", null), ("bool", bool), ("int", int), ("float", real), ("binary", bytes),
   ("timestamp", moment), ("str", text), ("seq", list), ("map", record), ("set", set),
   ("omap", pairs), ("pairs", pairs), ("merge", merge), ("value", equals)]

def ofName (name : List Char) : Tag :=
  match Text.after? standardStart.toList name with
  | some rest => (standardNames.lookup (String.ofList rest)).getD other
  | none => other

def isCollection : Tag → Bool
  | list | record | set | pairs => true
  | _ => false

end Tag

/-- A tag as it is written: a suffix, after a handle unless it is the name in full. -/
structure WrittenTag where
  handle : Option (List Char)
  suffix : List Char
  deriving DecidableEq, Repr

abbrev Handles := List (List Char × List Char)

def Handles.initial : Handles :=
  [(['!'], ['!']), (['!', '!'], Tag.standardStart.toList)]

def WrittenTag.name (t : WrittenTag) (handles : Handles) : Attempt (List Char) :=
  match t.handle with
  | none => .ok t.suffix
  | some handle => do
    let start ← Attempt.ofOption (handles.lookup handle)
    return start ++ t.suffix

def isHexDigit (c : Char) : Bool :=
  Text.isAsciiDigit c || ('a' ≤ c && c ≤ 'f') || ('A' ≤ c && c ≤ 'F')

/-- Whether the character may stand in a name: of an anchor, of a directive, or between exclamation
marks. -/
def isNameChar (c : Char) : Bool :=
  Text.isAsciiLetter c || Text.isAsciiDigit c || c == '-' || c == '_'

def isSuffixChar (c : Char) : Bool :=
  isNameChar c || ";/?:@&=+$,.!~*()[]%".toList.contains c || c == Text.apostrophe

def escapedBytes : (fuel : Nat) → List Char → Attempt (List UInt8 × List Char)
  | fuel + 1, '%' :: a :: b :: rest =>
    if isHexDigit a && isHexDigit b then do
      let (more, rest) ← escapedBytes fuel rest
      return ((Decimal.radixValue 16 [a, b]).toUInt8 :: more, rest)
    else .error .illFormed
  | _, '%' :: _ => .error .illFormed
  | _, rest => .ok ([], rest)

def suffixFrom : (fuel : Nat) → Cursor → Attempt (List Char × Cursor)
  | 0, c => .ok ([], c)
  | fuel + 1, c =>
    match c.rest with
    | [] => .ok ([], c)
    | '%' :: _ => do
      let (bytes, rest) ← escapedBytes c.rest.length c.rest
      let text ← Attempt.ofOption (String.fromUTF8? ⟨bytes.toArray⟩)
      let (more, c) ← suffixFrom fuel (c.skip (c.rest.length - rest.length))
      return (text.toList ++ more, c)
    | ch :: _ =>
      if isSuffixChar ch then do
        let (more, c) ← suffixFrom fuel c.next
        return (ch :: more, c)
      else .ok ([], c)

def suffix (c : Cursor) : Attempt (List Char × Cursor) := do
  let (text, after) ← suffixFrom (c.rest.length + 1) c
  if after.index = c.index then throw .illFormed
  return (text, after)

def handle (c : Cursor) : Attempt (List Char × Cursor) :=
  match c.rest with
  | '!' :: ' ' :: _ => .ok (['!'], c.next)
  | '!' :: rest =>
    let name := rest.takeWhile isNameChar
    if rest.drop name.length |>.head? |>.any (· == '!') then
      .ok ('!' :: name ++ ['!'], c.skip (name.length + 2))
    else .error .illFormed
  | _ => .error .illFormed

def writtenTag (c : Cursor) : Attempt (WrittenTag × Cursor) := do
  let (tag, c) ←
    match c.peekAt 1 with
    | '<' => do
      let (name, c) ← suffix (c.skip 2)
      if c.peek ≠ '>' then throw .illFormed
      pure (⟨none, name⟩, c.next)
    | second =>
      if isBlankOrEnd second then pure (⟨none, ['!']⟩, c.next)
      else
        let word := c.next.rest.takeWhile (!isSpaceOrEnd ·)
        let (start, c) ← if word.contains '!' then handle c else pure (['!'], c.next)
        let (name, c) ← suffix c
        pure (⟨some start, name⟩, c)
  if !isSpaceOrEnd c.peek then throw .illFormed
  return (tag, c)

end Reckon.Document
