import Reckon.Markup.Stash

/-!
The lines of a marked-up text.

Tabs reach to the next column that four divides. Lines end with line feeds, and a line of spaces
counts as empty.
-/

set_option autoImplicit false

namespace Reckon.Markup

/-- Columns between two tab stops, and the indentation of what is inside something. -/
def tabWidth : Nat := 4

def isSpace (c : Char) : Bool := c == ' '

def dropSpacesRight (cs : List Char) : List Char :=
  (cs.reverse.dropWhile isSpace).reverse

def trimSpaces (cs : List Char) : List Char :=
  Text.dropAround isSpace cs

def dropBlanks (cs : List Char) : List Char :=
  cs.dropWhile Text.isBlank

def dropBlanksRight (cs : List Char) : List Char :=
  (cs.reverse.dropWhile Text.isBlank).reverse

namespace Source

def unifyEnds : List Char → List Char
  | [] => []
  | '\r' :: '\n' :: rest => '\n' :: unifyEnds rest
  | c :: rest => (if c = '\r' then '\n' else c) :: unifyEnds rest

def expandTabs : (column : Nat) → List Char → List Char
  | _, [] => []
  | column, c :: rest =>
    if c = '\t' then
      let width := tabWidth - column % tabWidth
      List.replicate width ' ' ++ expandTabs (column + width) rest
    else c :: expandTabs (column + 1) rest

def emptied (line : List Char) : List Char :=
  if line.all isSpace then [] else line

def lines (s : String) : Lines :=
  let cs := unifyEnds (s.toList.filter fun c => c != openMark && c != closeMark)
  ((Text.fields '\n' cs).map fun line => emptied (expandTabs 0 line)) ++ [[], []]

end Source

end Reckon.Markup
