import Reckon.Markup.Source
import Reckon.Markup.Tag

/-!
HTML among the lines of a text.

The tag of a block that begins a line begins a piece of HTML, which goes on to the tag that closes
it. Comments that begin a line are pieces as well. All other tags are left in the text.
-/

set_option autoImplicit false

namespace Reckon.Markup.Raw

inductive Mark where
  | opening (name : List Char)
  | closing (name : List Char)
  | complete (isBlock : Bool)

def through? (pattern : List Char) : List Char → Option (List Char × List Char)
  | [] => none
  | c :: rest =>
    match Text.after? pattern (c :: rest) with
    | some after => some (pattern, after)
    | none => (through? pattern rest).map fun (inside, after) => (c :: inside, after)

/-- The characters of a tag up to its end; in a value in quotes the end does not count. `quote` is
the one that is open, and `valued` tells whether a value may begin. -/
def tagEnd? : (quote : Option Char) → (valued : Bool) → List Char → Option (List Char × List Char)
  | _, _, [] => none
  | some q, _, c :: rest =>
    (tagEnd? (if c = q then none else some q) false rest).map fun (inside, after) =>
      (c :: inside, after)
  | none, valued, c :: rest =>
    if c = '>' then some (['>'], rest)
    else if c = Char.ofNat 96 then none
    else
      let opens := valued && (c == '"' || c == Char.ofNat 39)
      let valued := c == '=' || (valued && Text.isBlank c)
      (tagEnd? (if opens then some c else none) valued rest).map fun (inside, after) =>
        (c :: inside, after)

def isNamePart (c : Char) : Bool :=
  !(Text.isBlank c || c == '/' || c == '>' || c == Char.ofNat 96 || c == Char.ofNat 0)

/-- The tag or comment at the front of a text, its characters, and what follows. -/
def mark? : List Char → Option (Mark × List Char × List Char)
  | '<' :: '!' :: '-' :: '-' :: rest =>
    (through? "-->".toList rest).map fun (inside, after) =>
      (.complete true, "<!--".toList ++ inside, after)
  | '<' :: '/' :: c :: rest =>
    if Text.isAsciiLetter c then
      let name := c :: rest.takeWhile isNamePart
      (through? ['>'] (c :: rest)).map fun (inside, after) =>
        (.closing (Text.smallChars name), '<' :: '/' :: inside, after)
    else none
  | '<' :: c :: rest =>
    if Text.isAsciiLetter c then
      let name := Text.smallChars (c :: rest.takeWhile isNamePart)
      (tagEnd? none false (c :: rest)).map fun (inside, after) =>
        let isComplete := inside.reverse.take 2 == ['>', '/'] || name == "hr".toList
        (if isComplete then .complete (isBlockTag name) else .opening name, '<' :: inside, after)
    else none
  | _ => none

/-- A text that is being gone through: the text so far, the last character first, the pieces taken
out of it, and the piece that has begun, with the tags that are open in it. -/
structure Work where
  text : List Char
  stash : Stash
  piece : List Char
  tags : List (List Char)
  inTail : Bool
  line : List Char

namespace Work

def isInside (w : Work) : Bool := !w.tags.isEmpty

def atLineStart (w : Work) : Bool :=
  w.line.length ≤ 3 && w.line.all Text.isBlank

def add (cs : List Char) (w : Work) : Work :=
  let line := cs.foldl (fun line c => if c = '\n' then [] else c :: line) w.line
  if w.isInside then { w with piece := cs.reverseAux w.piece, line }
  else { w with text := cs.reverseAux w.text, line, inTail := w.inTail && !cs.contains '\n' }

def emptyFollows (after : List Char) : Bool :=
  match after.dropWhile isSpace with
  | '\n' :: rest => (rest.dropWhile isSpace).head? == some '\n'
  | _ => false

def putPiece (piece after : List Char) (w : Work) : Work :=
  let ends := emptyFollows after
  let piece := if ends then piece ++ ['\n'] else piece
  let (mark, stash) := w.stash.keep piece
  { w with
    text := '\n' :: '\n' :: mark.reverseAux w.text
    stash
    piece := []
    tags := []
    inTail := !ends }

def pass (mark : Mark) (cs after : List Char) (w : Work) : Work :=
  match mark with
  | .opening name =>
    if w.isInside then { w.add cs with tags := name :: w.tags }
    else if isBlockTag name && (w.inTail || w.atLineStart) then
      { { w with text := '\n' :: w.text, tags := [name] }.add cs with inTail := false }
    else w.add cs
  | .closing name =>
    let w := w.add cs
    if !w.isInside then w
    else
      let tags := if w.tags.contains name then (w.tags.dropWhile (· != name)).drop 1 else w.tags
      if tags.isEmpty then w.putPiece w.piece.reverse after else { w with tags }
  | .complete isBlock =>
    if !w.isInside && !w.inTail && w.atLineStart && isBlock then
      let text := match w.text with
        | '\n' :: '\n' :: rest => '\n' :: '\n' :: rest
        | '\n' :: rest => '\n' :: '\n' :: rest
        | text => text
      { w with text, line := cs.reverseAux w.line }.putPiece cs after
    else w.add cs

end Work

/-- A character reference at the front of a text that has no semicolon, and what follows. -/
def openReference? : List Char → Option (List Char × List Char)
  | '&' :: '#' :: rest =>
    let digits := rest.takeWhile Text.isAsciiDigit
    match rest.drop digits.length with
    | c :: after =>
      if digits.isEmpty || c == ';' || "abcdefABCDEF".toList.contains c then none
      else some ('&' :: '#' :: digits, c :: after)
    | [] => none
  | _ => none

def goThrough : (fuel : Nat) → Work → List Char → Work
  | 0, w, _ => w
  | _ + 1, w, [] => w
  | fuel + 1, w, c :: rest =>
    match mark? (c :: rest) with
    | some (mark, cs, after) => goThrough fuel (w.pass mark cs after) after
    | none =>
      match openReference? (c :: rest) with
      | some (cs, after) => goThrough fuel (w.add (cs ++ [';'])) after
      | none => goThrough fuel (w.add [c]) rest

def keepAll (stash : Stash) (lines : Lines) : Lines × Stash :=
  let cs := joined lines
  let w := goThrough cs.length ⟨[], stash, [], [], false, []⟩ cs
  let w := if w.isInside then
      let (mark, stash) := w.stash.keep w.piece.reverse
      { w with text := mark.reverseAux w.text, stash }
    else w
  (Text.fields '\n' w.text.reverse, w.stash)

end Reckon.Markup.Raw
