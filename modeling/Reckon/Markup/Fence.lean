import Reckon.Markup.Source
import Reckon.Markup.Tag
import Reckon.Text.Word

/-!
Fenced code.

A fence is a line that begins with three or more of one mark and perhaps names a language. The code
goes on to the next line with the same marks and nothing else.
-/

set_option autoImplicit false

namespace Reckon.Markup

def codeMark : Char := Char.ofNat 96

structure Fence where
  marks : List Char
  language : List Char

namespace Fence

def isLanguagePart (c : Char) : Bool :=
  Text.isWordPart c || "#.+-".toList.contains c

def ofLine? (line : List Char) : Option Fence :=
  match line with
  | c :: _ =>
    let marks := line.takeWhile (· == c)
    let label := (line.drop marks.length).dropWhile isSpace
    let label := match label with
      | '.' :: rest => rest
      | label => label
    let isMark := c = codeMark || c = '~'
    if isMark && 3 ≤ marks.length && (label.dropWhile isLanguagePart).all isSpace then
      some ⟨marks, label.takeWhile isLanguagePart⟩
    else none
  | [] => none

def inside? (fence : Fence) : Lines → Option (Lines × Lines)
  | [] => none
  | line :: rest =>
    if dropSpacesRight line = fence.marks then some ([], rest)
    else (fence.inside? rest).map fun (code, after) => (line :: code, after)

def piece (fence : Fence) (code : Lines) : List Char :=
  let name :=
    if fence.language.isEmpty then []
    else " class=\"language-".toList ++ escapeAll true fence.language ++ ['"']
  "<pre><code".toList ++ name ++ ['>']
    ++ code.flatMap (fun line => escapeAll true line ++ ['\n']) ++ "</code></pre>".toList

/-- The lines with what stands for fenced code in its place; `fuel` is at least the number of
lines. -/
def keepAll : (fuel : Nat) → Stash → Lines → Lines × Stash
  | 0, stash, lines => (lines, stash)
  | _ + 1, stash, [] => ([], stash)
  | fuel + 1, stash, line :: rest =>
    match (ofLine? line).bind fun fence => (fence.inside? rest).map (fence, ·) with
    | some (fence, code, after) =>
      let (mark, stash) := stash.keep (fence.piece code)
      let (others, stash) := keepAll fuel stash after
      ([] :: mark :: [] :: others, stash)
    | none =>
      let (others, stash) := keepAll fuel stash rest
      (line :: others, stash)

end Fence

end Reckon.Markup
