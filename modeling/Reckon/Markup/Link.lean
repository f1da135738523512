import Reckon.Markup.Layout
import Reckon.Markup.Span

/-!
Links and images.

The text of a link stands in square brackets, its target and title in round brackets after it. A
label in square brackets stands for the target and title that are defined for it.
-/

set_option autoImplicit false

namespace Reckon.Markup.Span

/-- The spans up to the square bracket that closes, and those after it; `depth` brackets are open
inside it. -/
def bracketed? : (depth : Nat) → List Span → Option (List Span × List Span)
  | _, [] => none
  | depth, s :: rest =>
    if isMark ']' s then
      match depth with
      | 0 => some ([], rest)
      | depth + 1 => (bracketed? depth rest).map fun (inner, after) => (s :: inner, after)
    else
      let depth := if isMark '[' s then depth + 1 else depth
      (bracketed? depth rest).map fun (inner, after) => (s :: inner, after)

/-- A quotation mark in the brackets of a target, with the places after the first and after the last
of its kind. -/
structure Quotation where
  quote : Char
  start : Nat
  stop : Option Nat

structure Target where
  depth : Nat
  /-- How many brackets would be open if there were no title. -/
  spare : Nat
  /-- The place after the bracket that closes if there is no title. -/
  plainEnd : Option Nat
  first : Option Quotation
  second : Option Quotation
  last : Option Char

namespace Target

def isClosed (t : Target) (q : Option Quotation) : Bool :=
  match q with
  | some q => q.stop.isSome && t.last == some q.quote
  | none => false

def pass (t : Target) (place : Nat) (c : Option Char) : Target :=
  let t :=
    if c = some '(' then
      if t.first.isNone then { t with depth := t.depth + 1 } else { t with spare := t.spare - 1 }
    else if c = some ')' then
      if t.isClosed t.first || t.isClosed t.second then { t with depth := 0 }
      else if t.first.isNone then { t with depth := t.depth - 1 }
      else if t.spare = 1 then { t with spare := 0, plainEnd := some (place + 1) }
      else { t with spare := t.spare - 1 }
    else
      match c with
      | none => t
      | some c =>
        if c != '"' && c != Char.ofNat 39 then t
        else
          match t.first, t.second with
          | none, _ => { t with depth := 1, spare := t.depth, first := some ⟨c, place + 1, none⟩ }
          | some q, none =>
            if q.quote = c then { t with first := some { q with stop := some (place + 1) } }
            else { t with second := some ⟨c, place + 1, none⟩ }
          | some q, some other =>
            if q.quote = c then { t with first := some { q with stop := some (place + 1) } }
            else { t with second := some { other with stop := some (place + 1) } }
  if t.depth = 0 || c == some ' ' then t else { t with last := c }

def goThrough (t : Target) (place : Nat) : List Span → Option (Target × Nat)
  | [] => t.plainEnd.map fun place => ({ t with first := none, second := none }, place)
  | s :: rest =>
    let c := match s with
      | char c => some c
      | _ => none
    let t := t.pass place c
    if t.depth = 0 then some (t, place + 1) else goThrough t (place + 1) rest

end Target

def between (start stop : Nat) (spans : List Span) : List Char :=
  texts ((spans.take stop).drop start)

def titleText (cs : List Char) : List Char :=
  let cs := Text.trimChars cs
  let cs := match cs with
    | c :: rest =>
      if (c = '"' ∨ c = Char.ofNat 39) ∧ rest.getLast? = some c then rest.dropLast else cs
    | [] => []
  cs.map fun c => if Text.isBlank c then ' ' else c

/-- A target in angle brackets with a title in quotes or none, and what follows the round bracket
that closes. -/
def angled? (spans : List Span) : Option (List Char × Option (List Char) × List Span) := do
  let rest ← after? ['<'] spans
  let inner := rest.takeWhile fun s => !isChar (fun c => c == '<' || c == '>') s
  let rest ← after? ['>'] (rest.drop inner.length)
  let rest := rest.dropWhile isBlank
  let target := Text.trimChars (texts inner)
  match rest with
  | char c :: quoted =>
    if c = '"' ∨ c = Char.ofNat 39 then
      let (title, rest) ← cut? [c] quoted
      let rest ← after? [')'] (rest.dropWhile isBlank)
      return (target, some (titleText (texts title)), rest)
    else
      let rest ← after? [')'] rest
      return (target, none, rest)
  | _ => none

def target? (spans : List Span) : Option (List Char × Option (List Char) × List Span) := do
  let inside := (← after? ['('] spans).dropWhile isBlank
  match angled? inside with
  | some found => return found
  | none =>
    let (t, stop) ← Target.goThrough ⟨1, 1, none, none, none, none⟩ 0 inside
    let titled := fun q : Quotation =>
      (between 0 (q.start - 1) inside, some (between q.start ((q.stop.getD 0) - 1) inside))
    let (target, title) := match t.first, t.second with
      | some q, other =>
        if t.isClosed (some q) then titled q
        else
          match other with
          | some other =>
            if t.isClosed (some other) then titled other else (between 0 (stop - 1) inside, none)
          | none => (between 0 (stop - 1) inside, none)
      | none, _ => (between 0 (stop - 1) inside, none)
    return (Text.trimChars target, title.map titleText, inside.drop stop)

def linkOrImage (isImage : Bool) (target : List Char) (title : Option (List Char))
    (inner : List Span) (refine : List Span → List Span) : Span :=
  if isImage then image target title (texts inner) else link target title (refine inner)

def opened? (isImage : Bool) (before : Option Span) (spans : List Span) : Option (List Span) :=
  if isImage then after? ['!', '['] spans
  else if before.any (isMark '!') then none
  else after? ['['] spans

def linkRule (isImage : Bool) (refine : List Span → List Span) : Rule := fun before spans =>
  let found? : Option Found := do
    let (inner, after) ← bracketed? 0 (← opened? isImage before spans)
    let (target, title, after) ← target? after
    return .made [linkOrImage isImage target title inner refine] after
  found?.getD .nothing

def labelText (cs : List Char) : List Char :=
  let cs := Text.smallChars cs
  cs.foldr (fun c label =>
    if !Text.isBlank c then c :: label
    else if label.head? == some ' ' then label else ' ' :: label) []

/-- Finds links or images with labels. A label stands in brackets of its own, or with `short` the
text itself is the label. -/
def labelRule (definitions : Definitions) (isImage short : Bool)
    (refine : List Span → List Span) : Rule := fun before spans =>
  let found? : Option Found := do
    let (inner, after) ← bracketed? 0 (← opened? isImage before spans)
    let (label, rest) ←
      if short then pure (inner, after)
      else
        let blankless := match after with
          | s :: rest => if s.isBlank then rest else after
          | [] => []
        let inside ← after? ['['] blankless
        let (label, rest) ← cut? [']'] inside
        pure (if label.isEmpty then inner else label, rest)
    let label := labelText (texts label)
    match definitions.find? fun d => d.label = label with
    | some d =>
      let title := if d.title.isEmpty then none else some d.title
      return .made [linkOrImage isImage d.target title inner refine] rest
    | none => return .skipped (spans.length - rest.length)
  found?.getD .nothing

end Reckon.Markup.Span
