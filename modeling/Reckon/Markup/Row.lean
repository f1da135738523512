import Reckon.Markup.Fence

/-!
Rows of tables.

Bars separate the cells of a row; a bar after a backslash or inside code separates nothing. The line
below the header is made of dashes and says how the columns are aligned.
-/

set_option autoImplicit false

namespace Reckon.Markup

inductive Alignment where
  | left
  | center
  | right
  deriving DecidableEq, Repr

def Alignment.name : Alignment → String
  | left => "left"
  | center => "center"
  | right => "right"

namespace Row

/-- What may matter to the cells of a row, with its places: a bar, or marks of code. -/
inductive Sign where
  | bar (place : Nat)
  /-- Marks of code, of which there are `count`; with `escaped` a backslash is the first of them. -/
  | code (first last count : Nat) (escaped : Bool)

/-- The signs in a row, from a place on; `fuel` is at least the number of characters. -/
def signs : (fuel : Nat) → (place : Nat) → List Char → List Sign
  | 0, _, _ => []
  | _ + 1, _, [] => []
  | fuel + 1, place, c :: rest =>
    let marks := (c :: rest).takeWhile (· == codeMark)
    if c = '\\' then
      let escaped := rest.takeWhile (· == codeMark)
      let count := escaped.length
      if count ≠ 0 then
        .code place (place + count) count true
          :: signs fuel (place + count + 1) (rest.drop count)
      else
        match rest with
        | d :: after =>
          if d = '\\' ∨ d = '|' then signs fuel (place + 2) after else signs fuel (place + 1) rest
        | [] => []
    else if c = codeMark then
      .code place (place + marks.length - 1) marks.length false
        :: signs fuel (place + marks.length) ((c :: rest).drop marks.length)
    else if c = '|' then .bar place :: signs fuel (place + 1) rest
    else signs fuel (place + 1) rest

/-- The last place of the next marks of code that are as many, and the signs after them. -/
def closing? (count : Nat) : List Sign → Option (Nat × List Sign)
  | [] => none
  | .code _ last count' _ :: rest =>
    if count' = count then some (last, rest) else closing? count rest
  | .bar _ :: rest => closing? count rest

/-- The places of code in a row: the first and the last place of each; `fuel` is at least the number
of signs. -/
def codes : (fuel : Nat) → List Sign → List (Nat × Nat)
  | 0, _ => []
  | _ + 1, [] => []
  | fuel + 1, .bar _ :: rest => codes fuel rest
  | fuel + 1, .code first _ count escaped :: rest =>
    let count := if escaped then count - 1 else count
    match if count = 0 then none else closing? count rest with
    | some (last, after) => (first, last) :: codes fuel after
    | none => codes fuel rest

def separators (row : List Char) : List Nat :=
  let found := signs row.length 0 row
  let inside := codes found.length found
  found.filterMap fun
    | .bar place =>
      if inside.any fun (first, last) => first ≤ place && place ≤ last then none else some place
    | .code .. => none

def cut (start : Nat) : (places : List Nat) → List Char → List (List Char)
  | [], row => [row]
  | place :: places, row =>
    row.take (place - start) :: cut (place + 1) places (row.drop (place - start + 1))

/-- The row without a bar at its end, if it has one; an even number of backslashes may stand before
the bar, and they go with it. -/
def withoutEnd? (row : List Char) : Option (List Char) :=
  match row.reverse with
  | '|' :: before =>
    let slashes := before.takeWhile (· == '\\')
    if slashes.length % 2 = 0 then some (before.drop slashes.length).reverse else none
  | _ => none

def isBordered (row : List Char) : Bool :=
  row.head? == some '|' || (withoutEnd? row).isSome

def cells (bordered : Bool) (row : List Char) : List (List Char) :=
  let row :=
    if bordered then
      let row := if row.head? == some '|' then row.drop 1 else row
      (withoutEnd? row).getD row
    else row
  cut 0 (separators row) row

def alignment? (cell : List Char) : Option Alignment :=
  let cell := trimSpaces cell
  match cell.head? == some ':', cell.getLast? == some ':' with
  | true, true => some .center
  | true, false => some .left
  | false, true => some .right
  | false, false => none

structure Table where
  columns : List (Option Alignment)
  header : List (List Char)
  rows : List (List (List Char))

def fitted (columns : Nat) (row : List (List Char)) : List (List Char) :=
  (List.range columns).map fun i => trimSpaces (row.getD i [])

/-- The table that lines are: a header of two cells or more, or of one cell if all lines have bars
at an end, a line of dashes with as many cells, and rows. -/
def table? (lines : Lines) : Option Table :=
  match lines.map trimSpaces with
  | header :: dashes :: rows =>
    let bordered := isBordered header
    let heads := cells bordered header
    let isTable :=
      1 < heads.length || (heads.length == 1 && bordered && (dashes :: rows).all isBordered)
    let marks := cells bordered dashes
    if isTable && marks.length == heads.length
        && marks.all (·.all fun c => "|:- ".toList.contains c) then
      let count := heads.length
      some ⟨marks.map alignment?, fitted count heads,
        rows.map fun row => fitted count (cells bordered row)⟩
    else none
  | _ => none

end Row

end Reckon.Markup
