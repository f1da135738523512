import Reckon.Markup.Fence

/-!
Spans of marked-up text, and passes that find them.

A rule looks at one place of a text and may make spans of what stands there; a pass applies it from
the front of the text, and from there again after each span that it has made. What one pass has
made, the later ones leave alone, except for the text in it.
-/

set_option autoImplicit false

namespace Reckon.Markup

inductive Span where
  | char (c : Char)
  | literal (c : Char)
  | raw (html : List Char)
  | code (text : List Char)
  | lineBreak
  | image (target : List Char) (title : Option (List Char)) (text : List Char)
  | link (target : List Char) (title : Option (List Char)) (inner : List Span)
  | mail (address : List Char)
  | emphasis (inner : List Span)
  | strong (inner : List Span)
  deriving Inhabited

namespace Span

def ofChars (cs : List Char) : List Span := cs.map char

def literals (cs : List Char) : List Span := cs.map literal

mutual

def text : Span → List Char
  | char c | literal c => [c]
  | raw html => html
  | code text => escapeAll false text
  | lineBreak | image .. => []
  | mail address => address
  | link _ _ inner | emphasis inner | strong inner => texts inner

def texts : List Span → List Char
  | [] => []
  | s :: rest => s.text ++ texts rest

end

def isChar (test : Char → Bool) : Span → Bool
  | char c => test c
  | _ => false

def isMark (mark : Char) : Span → Bool :=
  isChar (· == mark)

def isBlank : Span → Bool
  | char c | literal c => Text.isBlank c
  | _ => false

def markCount (mark : Char) (spans : List Span) : Nat :=
  (spans.takeWhile (isMark mark)).length

def after? : (cs : List Char) → List Span → Option (List Span)
  | [], rest => some rest
  | c :: cs, char d :: rest => if c = d then after? cs rest else none
  | _ :: _, _ => none

def cut? (cs : List Char) : List Span → Option (List Span × List Span)
  | [] => none
  | s :: rest =>
    match after? cs (s :: rest) with
    | some after => some ([], after)
    | none => (cut? cs rest).map fun (before, after) => (s :: before, after)

inductive Found where
  | nothing
  | made (spans after : List Span)
  | skipped (count : Nat)

abbrev Rule := Option Span → List Span → Found

/-- The spans with what a rule makes first, if it makes anything; `count` spans are skipped. -/
def applyOnce (rule : Rule) :
    (count : Nat) → (before : Option Span) → List Span → Option (List Span)
  | _, _, [] => none
  | count + 1, _, s :: rest => (applyOnce rule count (some s) rest).map (s :: ·)
  | 0, before, s :: rest =>
    match rule before (s :: rest) with
    | .made spans after => some (spans ++ after)
    | .skipped count => (applyOnce rule (count - 1) (some s) rest).map (s :: ·)
    | .nothing => (applyOnce rule 0 (some s) rest).map (s :: ·)

/-- The spans with all that a rule makes; `fuel` bounds how often it makes something. -/
def applyRule (rule : Rule) : (fuel : Nat) → List Span → List Span
  | 0, spans => spans
  | fuel + 1, spans =>
    match applyOnce rule 0 none spans with
    | some spans => applyRule rule fuel spans
    | none => spans

/-- A pass over a text. The first argument makes the later passes over the text in a span. -/
abbrev Pass := (refine : List Span → List Span) → List Span → List Span

namespace Pass

def ofRule (rule : (List Span → List Span) → Rule) : Pass := fun refine spans =>
  applyRule (rule refine) spans.length spans

def all : List Pass → List Span → List Span
  | [], spans => spans
  | pass :: later, spans => all later (pass (all later) spans)

end Pass

end Span

end Reckon.Markup
