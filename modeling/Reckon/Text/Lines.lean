/-!
Cutting texts into pieces: lines, fields between separators, and replacement of every occurrence
of a piece by another. Widths count characters.
-/

set_option autoImplicit false

namespace Reckon.Text

/-- Whether the character ends a line: the vertical controls from line feed to carriage return,
the separators from file to record, next line, and the line and paragraph separators. -/
def isLineEnd (c : Char) : Bool :=
  let n := c.toNat
  (10 ≤ n && n ≤ 13) || (28 ≤ n && n ≤ 30) || n == 0x85 || n == 0x2028 || n == 0x2029

/-- The lines of a text without their ends, given the characters of the current line so far in
reverse. -/
def linesFrom (line : List Char) : List Char → List (List Char)
  -- nothing stands after the last end
  | [] => if line.isEmpty then [] else [line.reverse]
  | '\r' :: '\n' :: rest => line.reverse :: linesFrom [] rest
  | c :: rest =>
    if isLineEnd c then line.reverse :: linesFrom [] rest else linesFrom (c :: line) rest

def lines (s : String) : List String :=
  (linesFrom [] s.toList).map String.ofList

def dropLineFeed (cs : List Char) : List Char :=
  if cs.getLast? = some '\n' then cs.dropLast else cs

def fields (separator : Char) : List Char → List (List Char)
  | [] => [[]]
  | c :: rest =>
    if c = separator then [] :: fields separator rest
    else match fields separator rest with
      | [] => [[c]]
      | field :: others => (c :: field) :: others

def cut? (separator : Char) : List Char → Option (List Char × List Char)
  | [] => none
  | c :: rest =>
    if c = separator then some ([], rest)
    else (cut? separator rest).map fun (before, after) => (c :: before, after)

def after? : (pattern : List Char) → List Char → Option (List Char)
  | [], rest => some rest
  | _ :: _, [] => none
  | p :: pattern, c :: rest => if p = c then after? pattern rest else none

/-- Replaces the occurrences of the pattern from left to right, none overlapping another; `fuel`
is at least the number of characters. -/
def replaceFrom (pattern replacement : List Char) : (fuel : Nat) → List Char → List Char
  | 0, cs => cs
  | _ + 1, [] => []
  | fuel + 1, c :: rest =>
    match after? pattern (c :: rest) with
    | some tail => replacement ++ replaceFrom pattern replacement fuel tail
    | none => c :: replaceFrom pattern replacement fuel rest

/-- The characters with every occurrence of a pattern, which is not empty, replaced. -/
def replaceChars (pattern replacement cs : List Char) : List Char :=
  replaceFrom pattern replacement cs.length cs

def replace (pattern replacement s : String) : String :=
  String.ofList (replaceChars pattern.toList replacement.toList s.toList)

def padRight (width : Nat) (s : String) : String :=
  s ++ String.ofList (List.replicate (width - s.length) ' ')

def padLeft (width : Nat) (s : String) : String :=
  String.ofList (List.replicate (width - s.length) ' ') ++ s

def start (count : Nat) (s : String) : String :=
  String.ofList (s.toList.take count)

def join (separator : String) (parts : List String) : String :=
  separator.intercalate parts

end Reckon.Text
