import Reckon.Markup.Emphasis
import Reckon.Markup.Link

/-!
Reading the spans of a text.

Code comes first, then escapes, links and images, HTML and character references, and emphasis last:
what is found before is no mark of what is found after.
-/

set_option autoImplicit false

namespace Reckon.Markup.Span

/-- The spans of the first run of exactly `count` marks of code, and those after it; `fuel` is at
least the number of spans. -/
def untilMarks? (count : Nat) : (fuel : Nat) → List Span → Option (List Span × List Span)
  | 0, _ => none
  | _ + 1, [] => none
  | fuel + 1, s :: rest =>
    let length := markCount codeMark (s :: rest)
    if length = count then some ([], (s :: rest).drop count)
    else
      let width := max length 1
      (untilMarks? count fuel ((s :: rest).drop width)).map fun (inside, after) =>
        ((s :: rest).take width ++ inside, after)

/-- The code that `count` marks or fewer begin, and what follows it, given the spans behind the run
of marks. -/
def code? (behind : List Span) : (left count : Nat) → Option (Span × List Span)
  | _, 0 => none
  | left, count + 1 =>
    match untilMarks? (count + 1) behind.length behind with
    | some (inside, after) =>
      let marks := List.replicate left codeMark
      some (code (Text.trimChars (marks ++ texts inside)), after)
    | none => code? behind (left + 1) count

def codeRule : Rule := fun before spans =>
  if before.any (isMark '\\') then .nothing
  else
    let slashes := markCount '\\' spans
    let marks := markCount codeMark spans
    -- a backslash takes away the meaning of the mark after it, unless it is the second of two
    if slashes ≠ 0 then
      if slashes % 2 = 0 && 0 < markCount codeMark (spans.drop slashes) then
        .made (literals (List.replicate (slashes / 2) '\\')) (spans.drop slashes)
      else .nothing
    else if marks ≠ 0 then
      match code? (spans.drop marks) 0 marks with
      | some (found, after) => .made [found] after
      | none => .nothing
    else .nothing

def isEscapable (c : Char) : Bool :=
  c == codeMark || "\\*_\x7b\x7d[]()>#+-.!|".toList.contains c

/-- The spans with escapes in the place of backslashes and the characters after them. -/
def escapes : List Span → List Span
  | [] => []
  | char '\\' :: char c :: rest =>
    if isEscapable c then literal c :: escapes rest else char '\\' :: char c :: escapes rest
  | s :: rest => s :: escapes rest

def schemes : List String := ["http://", "https://", "ftp://", "ftps://"]

def inAngles? (spans : List Span) : Option (List Span × List Span) := do
  let rest ← after? ['<'] spans
  let inner := rest.takeWhile fun s => !isChar (fun c => c == '<' || c == '>') s
  let after ← after? ['>'] (rest.drop inner.length)
  return (inner, after)

def addressRule : Rule := fun _ spans =>
  match inAngles? spans with
  | some (inner, after) =>
    let isLink := schemes.any fun scheme =>
      Text.smallChars (texts (inner.take scheme.length)) == scheme.toList
    if isLink then
      let shown := inner.map fun s => match s with
        | char c => literal c
        | s => s
      .made [link (texts inner) none shown] after
    else .nothing
  | none => .nothing

def mailRule : Rule := fun _ spans =>
  match inAngles? spans with
  | some (inner, after) =>
    let host := (inner.reverse.takeWhile fun s => !isMark '@' s).length
    let name := inner.length - host - 1
    let isMail := 0 < host && 0 < name && name + host < inner.length
      && !inner.any (isMark ' ') && !(inner.take name).any (isMark '!')
    if isMail then
      let address := texts inner
      .made [mail ((Text.after? "mailto:".toList address).getD address)] after
    else .nothing
  | none => .nothing

def breakRule : Rule := fun _ spans =>
  match after? [' ', ' ', '\n'] spans with
  | some after => .made [lineBreak] after
  | none => .nothing

/-- A comment at the front, and what follows it; no comment begins inside another. -/
def comment? (spans : List Span) : Option (List Span × List Span) := do
  let rest ← after? "<!--".toList spans
  let (inside, after) ← cut? "-->".toList rest
  if (cut? "<!--".toList inside).isSome then none
  else return (spans.take (inside.length + 7), after)

def tag? (spans : List Span) : Option (List Span × List Span) := do
  let rest ← after? ['<'] spans
  let body := (after? ['/'] rest).getD rest
  if !(body.head?).any (isChar Text.isAsciiLetter) then none
  else
    let behind := body.dropWhile fun s => !isChar (fun c => "<>@ ".toList.contains c) s
    -- behind its name and a space there may be anything but other tags
    let behind :=
      if (behind.head?).any (isMark ' ') then
        behind.dropWhile fun s => !isChar (fun c => c == '<' || c == '>') s
      else behind
    let after ← after? ['>'] behind
    return (spans.take (spans.length - after.length), after)

def tagRule : Rule := fun _ spans =>
  match (tag? spans).or (comment? spans) with
  | some (inside, after) => .made [raw (texts inside)] after
  | none => .nothing

def referenceRule : Rule := fun _ spans =>
  match after? ['&'] spans with
  | some rest =>
    let plain := rest.takeWhile (isChar fun c => c != ';')
    let cs := texts plain ++ [';']
    if isReference cs && (rest.drop plain.length).head?.any (isMark ';') then
      .made [raw ('&' :: cs)] (rest.drop (plain.length + 1))
    else .nothing
  | none => .nothing

def aloneRule : Rule := fun before spans =>
  let count := max (markCount '*' spans) (markCount '_' spans)
  let isFree := fun s : Option Span => s.all isBlank
  if 1 ≤ count && count ≤ 3 && isFree before && isFree (spans.drop count).head? then
    .made (literals (texts (spans.take count))) (spans.drop count)
  else .nothing

def passes (definitions : Definitions) : List Pass :=
  let labels := fun isImage short =>
    if definitions.isEmpty then [] else [Pass.ofRule (labelRule definitions isImage short)]
  [Pass.ofRule fun _ => codeRule, fun _ => escapes]
    ++ labels false false ++ [Pass.ofRule (linkRule false), Pass.ofRule (linkRule true)]
    ++ labels true false ++ labels false true ++ labels true true
    ++ [addressRule, mailRule, breakRule, tagRule, referenceRule, aloneRule].map
      (fun rule => Pass.ofRule fun _ => rule)
    ++ [emphasize '*', emphasize '_']

def ofText (definitions : Definitions) (cs : List Char) : List Span :=
  Pass.all (passes definitions) (ofChars cs)

end Reckon.Markup.Span
