import Reckon.Document.Quoted

/-!
Block scalars: the indented lines after a bar or an angle.

After a bar every line end stays; after an angle a single line end between lines that do not begin
with a blank counts as a space. The line ends after the last line go, stay, or shrink to one.
-/

set_option autoImplicit false

namespace Reckon.Document

inductive Chomp where
  | one
  | strip
  | keep
  deriving DecidableEq, Repr

def chomp? (c : Char) : Option Chomp :=
  if c = '+' then some .keep else if c = '-' then some .strip else none

def depth? (c : Char) : Option Nat :=
  if Text.isAsciiDigit c ∧ c ≠ '0' then some (c.toNat - 48) else none

def blockSigns (c : Cursor) : Chomp × Option Nat × Cursor :=
  match chomp? c.peek with
  | some chomp =>
    match depth? (c.peekAt 1) with
    | some depth => (chomp, some depth, c.skip 2)
    | none => (chomp, none, c.next)
  | none =>
    match depth? c.peek with
    | none => (.one, none, c)
    | some depth =>
      match chomp? (c.peekAt 1) with
      | some chomp => (chomp, some depth, c.skip 2)
      | none => (.one, some depth, c.next)

def afterHeader? (c : Cursor) : Option Cursor :=
  if !isSpaceOrEnd c.peek then none
  else
    let c := c.skipWhile (· == ' ')
    let c := if c.peek = '#' then c.skipWhile (!isBreakOrEnd ·) else c
    match c.lineEnd? with
    | some (_, c) => some c
    | none => if c.rest.isEmpty then some c else none

def firstLine (deepest : Nat) : (fuel : Nat) → Cursor → List Char × Nat × Cursor
  | 0, c => ([], deepest, c)
  | fuel + 1, c =>
    if c.peek = ' ' then firstLine (max deepest c.next.column) fuel c.next
    else
      match c.lineEnd? with
      | none => ([], deepest, c)
      | some (lineEnd, c) =>
        let (more, indent, c) := firstLine deepest fuel c
        (lineEnd :: more, indent, c)

def emptyLines (indent : Nat) : (fuel : Nat) → Cursor → List Char × Cursor
  | 0, c => ([], c)
  | fuel + 1, c =>
    let spaces := ((c.rest.take (indent - c.column)).takeWhile (· == ' ')).length
    let c := c.skip spaces
    match c.lineEnd? with
    | none => ([], c)
    | some (lineEnd, c) =>
      let (more, c) := emptyLines indent fuel c
      (lineEnd :: more, c)

structure BlockLines where
  text : List Char
  last : List Char
  empty : List Char
  after : Cursor

def atBlockLine (indent : Nat) (c : Cursor) : Bool :=
  c.column == indent && !c.rest.isEmpty

def blockLines (fold : Bool) (indent : Nat) :
    (fuel : Nat) → (empty : List Char) → Cursor → BlockLines
  | 0, empty, c => ⟨[], [], empty, c⟩
  | fuel + 1, empty, c =>
    if atBlockLine indent c then
      let flush := !isSpaceOrTab c.peek
      let (line, c) := c.span (!isBreakOrEnd ·)
      let (last, c) := match c.lineEnd? with
        | some (lineEnd, c) => ([lineEnd], c)
        | none => ([], c)
      let (more, c) := emptyLines indent fuel c
      if atBlockLine indent c then
        let joint :=
          if fold && last == ['\n'] && flush && !isSpaceOrTab c.peek then
            if more.isEmpty then [' '] else []
          else last
        let others := blockLines fold indent fuel more c
        { others with text := empty ++ line ++ joint ++ others.text }
      else ⟨empty ++ line, last, more, c⟩
    else ⟨[], [], empty, c⟩

def blockText (fold : Bool) (outer : Int) (fuel : Nat) (c : Cursor) :
    Option (List Char × Cursor) := do
  let (chomp, depth, c) := blockSigns c
  let c ← afterHeader? c
  let least := max 1 (outer + 1).toNat
  let (indent, empty, c) := match depth with
    | some depth =>
      let indent := least + depth - 1
      let (empty, c) := emptyLines indent fuel c
      (indent, empty, c)
    | none =>
      let (empty, deepest, c) := firstLine 0 fuel c
      (max least deepest, empty, c)
  let lines := blockLines fold indent fuel empty c
  let tail := match chomp with
    | .strip => []
    | .one => lines.last
    | .keep => lines.last ++ lines.empty
  return (lines.text ++ tail, lines.after)

end Reckon.Document
