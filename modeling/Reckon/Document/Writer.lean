import Reckon.Document.Base64
import Reckon.Document.Pen
import Reckon.Value.Basic

/-!
Writing documents.

Lists and records are written in blocks. A value that stands in several places is written in the
first one, under an anchor; an alias stands in the others. The anchors are numbered in the order in
which their first aliases come.
-/

set_option autoImplicit false

namespace Reckon.Document

def numberLayout : Decimal.Layout :=
  { last := 15, first := -4, pointBeforeExponent := true, nan := ".nan", infinity := ".inf" }

/-- The labels that were met, the last one first, and those that were met again, in that order. -/
structure Labels where
  met : List Nat
  again : List Nat

mutual

def meet (labels : Labels) : Value → Labels
  | .shared label value =>
    if labels.again.contains label then labels
    -- what is inside a value met before is not looked at
    else if labels.met.contains label then { labels with again := labels.again ++ [label] }
    else meet { labels with met := label :: labels.met } value
  | .list items | .tuple items | .array items | .set items => meetItems labels items
  | .record entries => meetEntries labels entries
  | _ => labels

def meetItems (labels : Labels) : List Value → Labels
  | [] => labels
  | item :: rest => meetItems (meet labels item) rest

def meetEntries (labels : Labels) : List (Value × Value) → Labels
  | [] => labels
  | (key, value) :: rest => meetEntries (meet (meet labels key) value) rest

end

abbrev Anchors := List Nat

def anchorName (anchors : Anchors) (label : Nat) : List Char :=
  "id".toList ++ (Decimal.zeroPadded 3 (anchors.idxOf label + 1)).toList

def scalarChars (indent : Nat) (fold : Bool) (v : Value) (column : Nat) : List Char :=
  match v with
  | .null => "null".toList
  | .bool b => (if b then "true" else "false").toList
  | .int n => (Decimal.whole n).toList
  | .real x => (Decimal.inFull numberLayout x).toList
  | .text s => textChars indent column fold s
  | .date year month day => (Calendar.dayText year month day).toList
  | .moment m =>
    let cs := m.text.toList
    foldedText indent fold false (cs.length + 1) column cs
  | _ => []

def tagLength : Value → Nat
  | .text _ | .int _ => 5
  | .null | .bool _ => 6
  | .real _ => 7
  | _ => 11

def keyLimit : Nat := 128

/-- Whether a key stands on the line of its value: texts that are empty or hold line ends do not,
and neither do keys that are long together with their tag and anchor. -/
def isShortKey (anchor : Nat) : Value → Bool
  | .shared _ value => isShortKey 5 value
  | .text s =>
    !s.isEmpty && !hasLineEnd s.toList && anchor + tagLength (.text s) + s.length < keyLimit
  | .bytes _ => false
  | .list items | .tuple items | .array items | .set items => items.isEmpty
  | .record entries => entries.isEmpty
  | v => anchor + tagLength v + (scalarChars 0 false v 0).length < keyLimit

structure Draft where
  pen : Pen
  written : List Nat

namespace Draft

def move (f : Pen → Pen) (d : Draft) : Draft :=
  { d with pen := f d.pen }

def empty (marks : List Char) (d : Draft) : Draft :=
  d.move fun p => p.apart.mark marks false

def tag (name : String) (d : Draft) : Draft :=
  d.move fun p => p.apart.mark ("!!" ++ name).toList false

def bytes (indent : Nat) (content : List UInt8) (d : Draft) : Draft :=
  if content.isEmpty then d.empty ['"', '"']
  else
    d.move fun p =>
      (Base64.lines content.length content).foldl
        (fun p line => ((p.toIndent (indent + 2)).put line).breakLine)
        (p.apart.mark ['|'] false).breakLine

def listIndent (inRecord : Bool) (indent : Nat) (d : Draft) : Nat :=
  -- in a record the dashes are indented like the keys, unless only marks stand before them
  if inRecord && !d.pen.onlyMarks then indent else indent + 2

def isShort (anchors : Anchors) (d : Draft) : Value → Bool
  | .shared label value =>
    d.written.contains label || isShortKey (if anchors.contains label then 5 else 0) value
  | v => isShortKey 0 v

def openKey (indent : Nat) (isShort : Bool) (d : Draft) : Draft :=
  let d := d.move (Pen.toIndent indent)
  if isShort then d else d.move fun p => p.apart.mark ['?'] true

def closeKey (indent : Nat) (isShort : Bool) (d : Draft) : Draft :=
  if isShort then d.move fun p => p.mark [':'] false
  else d.move fun p => (p.toIndent indent).apart.mark [':'] true

end Draft

mutual

/-- Writes a value; `inRecord` tells whether it is part of a record, and `fold` whether its lines
may end at spaces. -/
def put (anchors : Anchors) (inRecord fold : Bool) (indent : Nat) (d : Draft) : Value → Draft
  | .shared label value =>
    let name := anchorName anchors label
    if d.written.contains label then d.move fun p => p.apart.mark ('*' :: name) false
    else
      let d := { d with written := label :: d.written }
      let d :=
        if anchors.contains label then d.move fun p => p.apart.mark ('&' :: name) false else d
      put anchors inRecord fold indent d value
  | .list items | .array items =>
    if items.isEmpty then d.empty ['[', ']']
    else putItems anchors (d.listIndent inRecord indent) d items
  | .tuple items =>
    let d := d.tag "python/tuple"
    if items.isEmpty then d.empty ['[', ']']
    else putItems anchors (d.listIndent inRecord indent) d items
  | .set items =>
    let d := d.tag "set"
    if items.isEmpty then d.empty ['\x7b', '\x7d'] else putMembers anchors (indent + 2) d items
  | .record entries =>
    if entries.isEmpty then d.empty ['\x7b', '\x7d'] else putEntries anchors (indent + 2) d entries
  | .bytes content => (d.tag "binary").bytes indent content
  | v => d.move (Pen.scalar (scalarChars (indent + 2) fold v))

def putItems (anchors : Anchors) (indent : Nat) (d : Draft) : List Value → Draft
  | [] => d
  | item :: rest =>
    let d := d.move fun p => (p.toIndent indent).apart.mark ['-'] true
    putItems anchors indent (put anchors false true indent d item) rest

def putMembers (anchors : Anchors) (indent : Nat) (d : Draft) : List Value → Draft
  | [] => d
  | key :: rest =>
    let isShort := d.isShort anchors key
    let d := put anchors true (!isShort) indent (d.openKey indent isShort) key
    let d := d.closeKey indent isShort
    let d := d.move (Pen.scalar (scalarChars (indent + 2) true .null))
    putMembers anchors indent d rest

def putEntries (anchors : Anchors) (indent : Nat) (d : Draft) : List (Value × Value) → Draft
  | [] => d
  | (key, value) :: rest =>
    let isShort := d.isShort anchors key
    let d := put anchors true (!isShort) indent (d.openKey indent isShort) key
    let d := d.closeKey indent isShort
    putEntries anchors indent (put anchors true true indent d value) rest

end

def ofList (items : List Value) : String :=
  let labels := meetItems ⟨[], []⟩ items
  let draft : Draft := ⟨.start, []⟩
  let draft :=
    if items.isEmpty then draft.empty ['[', ']'] else putItems labels.again 0 draft items
  String.ofList (draft.pen.toIndent 0).written.reverse

end Reckon.Document
