import Reckon.Document.Quoted

/-!
Plain words.

A plain word goes on over spaces and line ends as long as what follows is indented enough. It ends
where a comment begins, at a colon before a blank, and inside brackets at their marks.
-/

set_option autoImplicit false

namespace Reckon.Document

def isFlowMark (c : Char) : Bool :=
  c == ',' || c == '[' || c == ']' || c == '\x7b' || c == '\x7d'

def plainWord (inBrackets : Bool) : List Char → List Char
  | [] => []
  | c :: rest =>
    let next := rest.headD endMark
    if isBlankOrEnd c || (c == ':' && (isBlankOrEnd next || (inBrackets && isFlowMark next)))
        || (inBrackets && (isFlowMark c || c == '?')) then []
    else c :: plainWord inBrackets rest

/-- The ends of the empty lines here; none at all if a marker between documents follows. -/
def plainBreaks : (fuel : Nat) → Cursor → Option (List Char) × Cursor
  | 0, c => (some [], c)
  | fuel + 1, c =>
    if c.peek = ' ' then plainBreaks fuel c.next
    else
      match c.lineEnd? with
      | none => (some [], c)
      | some (lineEnd, c) =>
        if c.atMarker then (none, c)
        else
          let (more, c) := plainBreaks fuel c
          (more.map (lineEnd :: ·), c)

/-- What the spaces and line ends here count as, whether there is a line end, and the place after
them. -/
def plainSpaces (fuel : Nat) (c : Cursor) : List Char × Bool × Cursor :=
  let (blanks, c) := c.span (· == ' ')
  match c.lineEnd? with
  | none => (blanks, false, c)
  | some (lineEnd, c) =>
    -- blanks before a marker between documents count as nothing
    if c.atMarker then ([], true, c)
    else
      match plainBreaks fuel c with
      | (some more, c) => (folded lineEnd more, true, c)
      | (none, c) => ([], true, c)

/-- The text of a plain scalar after the given spaces, whether a line end follows it, and the place
after it and what separates it from the rest. -/
def plainText (inBrackets : Bool) (indent : Int) :
    (fuel : Nat) → (spaces : List Char) → Bool → Cursor → List Char × Bool × Cursor
  | 0, _, lineEnd, c => ([], lineEnd, c)
  | fuel + 1, spaces, lineEnd, c =>
    let word := if c.peek = '#' then [] else plainWord inBrackets c.rest
    if word.isEmpty then ([], lineEnd, c)
    else
      let (spaces', lineEnd, c) := plainSpaces fuel (c.skip word.length)
      if spaces'.isEmpty || c.peek == '#' || (!inBrackets && c.column < indent) then
        (spaces ++ word, lineEnd, c)
      else
        let (more, lineEnd, c) := plainText inBrackets indent fuel spaces' lineEnd c
        (spaces ++ word ++ more, lineEnd, c)

end Reckon.Document
