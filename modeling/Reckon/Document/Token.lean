import Reckon.Document.Block
import Reckon.Document.Plain
import Reckon.Document.Scalar

/-!
Tokens of documents.

Outside brackets the indentation opens and closes lists and records. That a word is a key shows
only at the colon after it, so the places where a key may have begun are remembered, one for each
level of brackets, and the marks of a key are put in there once its colon is seen.
-/

set_option autoImplicit false

namespace Reckon.Document

inductive Directive where
  | version (major : Int)
  | handle (name start : List Char)
  | other
  deriving DecidableEq, Repr

inductive Token where
  | directive (content : Directive)
  | documentStart
  | documentEnd
  | textEnd
  | blockList
  | blockRecord
  | blockEnd
  | openList
  | closeList
  | openRecord
  | closeRecord
  | dash
  | comma
  | key
  | value
  | alias (name : List Char)
  | anchor (name : List Char)
  | tag (written : WrittenTag)
  | scalar (plain : Bool) (text : List Char)
  deriving DecidableEq, Repr

structure KeyStart where
  place : Nat
  required : Bool
  index : Nat
  line : Nat
  column : Nat

/-- The tokens so far, the last one first, and what decides about the next ones. -/
structure Scanner where
  cursor : Cursor
  tokens : List Token
  brackets : Nat
  /-- The column of the innermost block, or less than any column. -/
  indent : Int
  outer : List Int
  keyAllowed : Bool
  /-- The places where a key may have begun, by the number of open brackets. -/
  keys : List (Nat × KeyStart)

namespace Scanner

def start (cs : List Char) : Scanner :=
  ⟨.start cs, [], 0, -1, [], true, []⟩

def emit (t : Token) (s : Scanner) : Scanner :=
  { s with tokens := t :: s.tokens }

def emitAt (place : Nat) (t : Token) (s : Scanner) : Scanner :=
  { s with tokens := s.tokens.insertIdx (s.tokens.length - place) t }

def skip (n : Nat) (s : Scanner) : Scanner :=
  { s with cursor := s.cursor.skip n }

def allowKey (allowed : Bool) (s : Scanner) : Scanner :=
  { s with keyAllowed := allowed }

def dropStale (s : Scanner) : Attempt Scanner :=
  let isStale := fun (_, key) =>
    key.line != s.cursor.line || key.index + 1024 < s.cursor.index
  if s.keys.any fun entry => isStale entry && entry.2.required then .error .illFormed
  else .ok { s with keys := s.keys.filter (!isStale ·) }

/-- Forgets the place of this level, which must not be one where only a key can stand. -/
def dropKey (s : Scanner) : Attempt Scanner :=
  match s.keys.lookup s.brackets with
  | some key =>
    if key.required then .error .illFormed
    else .ok { s with keys := s.keys.filter (·.1 != s.brackets) }
  | none => .ok s

def saveKey (s : Scanner) : Attempt Scanner :=
  if s.keyAllowed then do
    let required := s.brackets == 0 && s.indent == s.cursor.column
    let s ← s.dropKey
    let key : KeyStart :=
      ⟨s.tokens.length, required, s.cursor.index, s.cursor.line, s.cursor.column⟩
    return { s with keys := (s.brackets, key) :: s.keys }
  else .ok s

/-- Closes the blocks that are indented beyond a column, given their columns outwards. -/
def closeBlocks (column : Int) : (outer : List Int) → Scanner → Scanner
  | [], s => s
  | next :: outer, s =>
    if column < s.indent then
      closeBlocks column outer (emit .blockEnd { s with indent := next, outer })
    else s

/-- Closes the blocks that are indented beyond a column; inside brackets there are none. -/
def unwind (column : Int) (s : Scanner) : Scanner :=
  if s.brackets = 0 then closeBlocks column s.outer s else s

def openBlock (column place : Nat) (t : Token) (s : Scanner) : Scanner :=
  -- inside brackets there are no blocks
  if s.brackets = 0 ∧ s.indent < column then
    emitAt place t { s with indent := column, outer := s.indent :: s.outer }
  else s

def openHere (t : Token) (s : Scanner) : Scanner :=
  openBlock s.cursor.column s.tokens.length t s

def toNextToken : (fuel : Nat) → Scanner → Scanner
  | 0, s => s
  | fuel + 1, s =>
    let c := s.cursor.skipWhile (· == ' ')
    let c := if c.peek = '#' then c.skipWhile (!isBreakOrEnd ·) else c
    match c.lineEnd? with
    | some (_, c) =>
      toNextToken fuel { s with cursor := c, keyAllowed := s.keyAllowed || s.brackets == 0 }
    | none => { s with cursor := c }

def documentMark (t : Token) (length : Nat) (s : Scanner) : Attempt Scanner := do
  let s ← (s.unwind (-1)).dropKey
  return ((s.allowKey false).skip length).emit t

def finish (s : Scanner) : Attempt Scanner := do
  let s ← s.documentMark .textEnd 0
  return { s with keys := [] }

def afterSpaces (c : Cursor) : Cursor :=
  c.skipWhile (· == ' ')

def versionPart (c : Cursor) : Attempt (Int × Cursor) := do
  let (digits, after) := c.span Text.isAsciiDigit
  if digits.isEmpty then throw .illFormed
  return (← wholeIn 10 digits, after)

def version (c : Cursor) : Attempt (Directive × Cursor) := do
  let (major, c) ← versionPart (afterSpaces c)
  if c.peek ≠ '.' then throw .illFormed
  let (_, c) ← versionPart c.next
  if !isSpaceOrEnd c.peek then throw .illFormed
  return (.version major, c)

def handleStart (c : Cursor) : Attempt (Directive × Cursor) := do
  let (name, c) ← handle (afterSpaces c)
  if c.peek ≠ ' ' then throw .illFormed
  let (start, c) ← suffix (afterSpaces c)
  if !isSpaceOrEnd c.peek then throw .illFormed
  return (.handle name start, c)

def directive (s : Scanner) : Attempt Scanner := do
  let s ← (s.unwind (-1)).dropKey
  let (name, c) := s.cursor.next.span isNameChar
  if name.isEmpty || !isSpaceOrEnd c.peek then throw .illFormed
  let (content, c) ←
    if name = "YAML".toList then version c
    else if name = "TAG".toList then handleStart c
    else pure (.other, c.skipWhile (!isBreakOrEnd ·))
  let c := afterSpaces c
  let c := if c.peek = '#' then c.skipWhile (!isBreakOrEnd ·) else c
  if !isBreakOrEnd c.peek then throw .illFormed
  let after := (c.lineEnd?.map Prod.snd).getD c
  return emit (.directive content) { s.allowKey false with cursor := after }

def openBracket (t : Token) (s : Scanner) : Attempt Scanner := do
  let s ← s.saveKey
  return (({ s with brackets := s.brackets + 1 }.allowKey true).skip 1).emit t

def closeBracket (t : Token) (s : Scanner) : Attempt Scanner := do
  let s ← s.dropKey
  match s.brackets with
  | 0 => throw .illFormed
  | brackets + 1 => return (({ s with brackets }.allowKey false).skip 1).emit t

def comma (s : Scanner) : Attempt Scanner := do
  let s ← s.dropKey
  return ((s.allowKey true).skip 1).emit .comma

def dash (s : Scanner) : Attempt Scanner := do
  if s.brackets = 0 ∧ !s.keyAllowed then throw .illFormed
  let s ← (s.openHere .blockList).dropKey
  return ((s.allowKey true).skip 1).emit .dash

def keyMark (s : Scanner) : Attempt Scanner := do
  if s.brackets = 0 ∧ !s.keyAllowed then throw .illFormed
  let s ← (s.openHere .blockRecord).dropKey
  return ((s.allowKey (s.brackets == 0)).skip 1).emit .key

def colon (s : Scanner) : Attempt Scanner := do
  match s.keys.lookup s.brackets with
  | some key =>
    let s := { s with keys := s.keys.filter (·.1 != s.brackets) }
    let s := (s.emitAt key.place .key).openBlock key.column key.place .blockRecord
    return ((s.allowKey false).skip 1).emit .value
  | none =>
    if s.brackets = 0 ∧ !s.keyAllowed then throw .illFormed
    let s := (s.openHere .blockRecord).allowKey (s.brackets == 0)
    return (s.skip 1).emit .value

def endsAnchor (c : Char) : Bool :=
  isBlankOrEnd c || "?:,]\x7d%@".toList.contains c || c == Char.ofNat 96

def named (t : List Char → Token) (s : Scanner) : Attempt Scanner := do
  let s ← s.saveKey
  let (name, c) := s.cursor.next.span isNameChar
  if name.isEmpty || !endsAnchor c.peek then throw .illFormed
  return emit (t name) { s.allowKey false with cursor := c }

def tagged (s : Scanner) : Attempt Scanner := do
  let s ← s.saveKey
  let (tag, c) ← writtenTag s.cursor
  return emit (.tag tag) { s.allowKey false with cursor := c }

def block (fold : Bool) (s : Scanner) : Attempt Scanner := do
  let s ← (s.allowKey true).dropKey
  let (text, c) ← Attempt.ofOption <|
    blockText fold s.indent (s.cursor.rest.length + 1) s.cursor.next
  return emit (.scalar false text) { s with cursor := c }

def quoted (double : Bool) (s : Scanner) : Attempt Scanner := do
  let s ← s.saveKey
  let (text, c) ← quotedText double (s.cursor.rest.length + 1) s.cursor.next
  return emit (.scalar false text) { s.allowKey false with cursor := c }

def plain (s : Scanner) : Attempt Scanner := do
  let s ← s.saveKey
  let (text, lineEnd, c) :=
    plainText (s.brackets != 0) (s.indent + 1) (s.cursor.rest.length + 1) [] false s.cursor
  return emit (.scalar true text) { s.allowKey lineEnd with cursor := c }

def startsPlain (s : Scanner) : Bool :=
  let c := s.cursor.peek
  let special := isBlankOrEnd c || "-?:,[]\x7b\x7d#&*!|>\"%@".toList.contains c ||
    c == Text.apostrophe
    || c == Char.ofNat 96
  !special || (!isBlankOrEnd (s.cursor.peekAt 1)
    && (c == '-' || (s.brackets == 0 && (c == '?' || c == ':'))))

def token (s : Scanner) : Attempt Scanner :=
  let c := s.cursor
  let apart := isBlankOrEnd (c.peekAt 1)
  let inBrackets := s.brackets != 0
  match c.rest with
  | [] => s.finish
  | ch :: _ =>
    if ch = '%' ∧ c.column = 0 then s.directive
    else if c.column = 0 ∧ c.atMarker then
      s.documentMark (if ch = '-' then .documentStart else .documentEnd) 3
    else if ch = '[' then s.openBracket .openList
    else if ch = '\x7b' then s.openBracket .openRecord
    else if ch = ']' then s.closeBracket .closeList
    else if ch = '\x7d' then s.closeBracket .closeRecord
    else if ch = ',' then s.comma
    else if ch = '-' ∧ apart then s.dash
    else if ch = '?' ∧ (inBrackets ∨ apart) then s.keyMark
    else if ch = ':' ∧ (inBrackets ∨ apart) then s.colon
    else if ch = '*' then s.named .alias
    else if ch = '&' then s.named .anchor
    else if ch = '!' then s.tagged
    else if ch = '|' ∧ !inBrackets then s.block false
    else if ch = '>' ∧ !inBrackets then s.block true
    else if ch = Text.apostrophe then s.quoted false
    else if ch = '"' then s.quoted true
    else if s.startsPlain then s.plain
    else .error .illFormed

def advance (s : Scanner) : Attempt Scanner :=
  (s.toNextToken (s.cursor.rest.length + 1)).dropStale

def step (s : Scanner) : Attempt Scanner := do
  let s ← s.advance
  (s.unwind s.cursor.column).token

/-- The tokens that are settled when the next one is in trouble: those before the first place where
a key may still begin. -/
def settled (s : Scanner) : List Token :=
  let places : List Nat := match s.advance with
    | .ok s => s.keys.map (·.2.place)
    | .error _ => []
  let count := (places.min?).getD s.tokens.length
  s.tokens.reverse.take count

def run : (fuel : Nat) → Scanner → List Token × Trouble
  | 0, s => (s.settled, .illFormed)
  | fuel + 1, s =>
    match s.step with
    | .error trouble => (s.settled, trouble)
    | .ok s =>
      match s.tokens with
      | .textEnd :: _ => (s.tokens.reverse, .illFormed)
      | _ => run fuel s

end Scanner

/-- The tokens of a text, and the trouble that comes after them if they do not reach its end. -/
def tokens (cs : List Char) : List Token × Trouble :=
  if cs.all isAllowed then
    let cs := match cs with
      | c :: rest => if c = orderMark then rest else cs
      | [] => []
    (Scanner.start cs).run (cs.length + 1)
  else ([], .illFormed)

end Reckon.Document
