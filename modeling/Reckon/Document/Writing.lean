import Reckon.Document.Word

/-!
Texts as documents write them.

A text is written plainly if it reads back as that text, between apostrophes if not, and between
double quotes if it holds characters that must be escaped. A space beyond the width of a line turns
into a line end.
-/

set_option autoImplicit false

namespace Reckon.Document

def lineWidth : Nat := 80

inductive Quoting where
  | plain
  | single
  | double
  deriving DecidableEq, Repr

def isSelf (c : Char) : Bool :=
  ' ' ≤ c && c ≤ '~' && c != '"' && c != '\\'

def isSpecial (c : Char) : Bool :=
  c != '\n' && !(' ' ≤ c && c ≤ '~')

def hasPair (first second : Char) : List Char → Bool
  | a :: b :: rest => (a == first && b == second) || hasPair first second (b :: rest)
  | _ => false

/-- Whether a mark inside the text would end it or begin a comment: a colon before a blank or a
number sign after one. -/
def hasInnerMark : List Char → Bool
  | a :: b :: rest =>
    (b == '#' && isBlankOrEnd a) || (b == ':' && isBlankOrEnd (rest.headD endMark))
      || hasInnerMark (b :: rest)
  | _ => false

def hasOuterMark (cs : List Char) : Bool :=
  match cs with
  | [] => false
  | '-' :: '-' :: '-' :: _ | '.' :: '.' :: '.' :: _ => true
  | c :: rest =>
    "#,[]\x7b\x7d&*!|>\"%@".toList.contains c || c == Text.apostrophe || c == Char.ofNat 96
      || ((c == '?' || c == ':' || c == '-') && isBlankOrEnd (rest.headD endMark))

def quotingOf (cs : List Char) : Quoting :=
  let breaks := cs.contains '\n'
  let outer := fun c => c == ' ' || c == '\n'
  let single := !(cs.any isSpecial || hasPair ' ' '\n' cs || hasPair '\n' ' ' cs)
  let plain := single && !breaks && !outer (cs.headD endMark) && !outer (cs.getLastD endMark)
    && !hasOuterMark cs && !hasInnerMark cs && Tag.ofWord cs == .text
  if plain then .plain else if single then .single else .double

def spaces (n : Nat) : List Char :=
  List.replicate n ' '

def newLine (indent : Nat) : List Char :=
  '\n' :: spaces indent

/-- The characters of a text folded at single spaces beyond the width. `begun` tells whether a
character stands before them, `column` where it ends. -/
def foldedText (indent : Nat) (fold begun : Bool) :
    (fuel column : Nat) → List Char → List Char
  | 0, _, cs => cs
  | fuel + 1, column, cs =>
    match cs with
    | [] => []
    | ' ' :: _ =>
      let run := cs.takeWhile (· == ' ')
      let rest := cs.drop run.length
      if fold && run.length == 1 && lineWidth < column && begun && !rest.isEmpty then
        newLine indent ++ foldedText indent fold true fuel indent rest
      else run ++ foldedText indent fold true fuel (column + run.length) rest
    | '\n' :: _ =>
      let run := cs.takeWhile (· == '\n')
      '\n' :: run ++ spaces indent
        ++ foldedText indent fold true fuel indent (cs.drop run.length)
    | c :: rest => c :: foldedText indent fold true fuel (column + 1) rest

def escapeOf (c : Char) : List Char :=
  let letter : Option Char := match c.toNat with
    | 0 => some '0'
    | 7 => some 'a'
    | 8 => some 'b'
    | 9 => some 't'
    | 10 => some 'n'
    | 11 => some 'v'
    | 12 => some 'f'
    | 13 => some 'r'
    | 27 => some 'e'
    | 34 => some '"'
    | 92 => some '\\'
    | 0x85 => some 'N'
    | 0xa0 => some '_'
    | 0x2028 => some 'L'
    | 0x2029 => some 'P'
    | _ => none
  match letter with
  | some letter => ['\\', letter]
  | none => Text.codeEscape true c

def brokenLine (indent : Nat) (next : Char) : List Char × Nat :=
  -- a space at the front of a line is protected by a backslash
  if next = ' ' then ('\\' :: newLine indent ++ ['\\'], indent + 1)
  else ('\\' :: newLine indent, indent)

/-- The characters of a text between double quotes. `pending` are those that are not yet written,
the last one first; a line may end before them. -/
def escapedText (indent : Nat) (fold : Bool) :
    (first : Bool) → (column : Nat) → (pending : List Char) → List Char → List Char
  | _, _, pending, [] => pending.reverse
  | first, column, pending, c :: rest =>
    let inner := fold && !first && !rest.isEmpty
    if isSelf c then
      if inner && (c == ' ' || pending.isEmpty) && lineWidth < column + pending.length then
        let (line, column) := brokenLine indent c
        pending.reverse ++ line ++ escapedText indent fold false column [c] rest
      else escapedText indent fold false column (c :: pending) rest
    else
      let written := pending.reverse ++ escapeOf c
      let column := column + written.length
      if inner && lineWidth < column - 1 then
        let (line, column) := brokenLine indent (rest.headD endMark)
        written ++ line ++ escapedText indent fold false column [] rest
      else written ++ escapedText indent fold false column [] rest

def textChars (indent column : Nat) (fold : Bool) (s : String) : List Char :=
  let cs := s.toList
  match quotingOf cs with
  | .plain => foldedText indent fold false (cs.length + 1) column cs
  | .single =>
    let inside := cs.flatMap fun c => if c = Text.apostrophe then [c, c] else [c]
    let body := foldedText indent fold false (inside.length + 1) (column + 1) inside
    Text.apostrophe :: body ++ [Text.apostrophe]
  | .double => '"' :: escapedText indent fold true (column + 1) [] cs ++ ['"']

def hasLineEnd (cs : List Char) : Bool :=
  cs.any fun c => c == '\n' || (isBreak c && c != '\r')

end Reckon.Document
