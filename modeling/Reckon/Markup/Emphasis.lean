import Reckon.Markup.Span
import Reckon.Text.Word

/-!
Emphasis.

A run of marks opens emphasis if a character other than a blank follows it, and closes it if one
stands before it. Underscores inside words do neither. The first run that closes is emphasis with
the nearest run that opens; two marks on either side make it strong. Where one of two runs may both
open and close, they belong together only if their lengths do not add up to a multiple of three,
unless both lengths are one.
-/

set_option autoImplicit false

namespace Reckon.Markup.Span

structure Run where
  start : Nat
  length : Nat
  opens : Bool
  closes : Bool

namespace Run

def isInWord : Span → Bool
  | char c | literal c => Text.isAlphanumeric c
  | _ => false

def ofMarks (mark : Char) (start length : Nat) (before after : Option Span) : Run :=
  let free := fun s : Option Span => mark != '_' || !(s.any isInWord)
  { start, length
    opens := after.any (!·.isBlank) && free before
    closes := before.any (!·.isBlank) && free after }

/-- The runs of a mark, from a place on; `fuel` is at least the number of spans. -/
def all (mark : Char) : (fuel place : Nat) → (before : Option Span) → List Span → List Run
  | 0, _, _, _ => []
  | _ + 1, _, _, [] => []
  | fuel + 1, place, before, s :: rest =>
    let length := markCount mark (s :: rest)
    if length = 0 then all mark fuel (place + 1) (some s) rest
    else
      let after := (s :: rest).drop length
      ofMarks mark place length before after.head?
        :: all mark fuel (place + length) (some s) after

def matches? (opener closer : Run) : Bool :=
  !((opener.closes || closer.opens) && (opener.length + closer.length) % 3 == 0
    && !(opener.length % 3 == 0 && closer.length % 3 == 0))

/-- The first run that closes emphasis, the run that opens it, and how many marks of either count,
given the runs that are open, the last one first. If an earlier run has to match because the last
one does not, the last one opens the emphasis all the same, and its length counts. -/
def firstPair? (opened : List Run) : List Run → Option (Run × Run × Nat)
  | [] => none
  | run :: rest =>
    let pair? :=
      if !run.closes || !opened.any (matches? · run) then none
      else
        (opened.head?).map fun last =>
          let length := if matches? last run then min last.length run.length else last.length
          (last, run, min length 2)
    match pair? with
    | some pair => some pair
    | none => firstPair? (if run.opens then run :: opened else opened) rest

end Run

/-- The text with its first emphasis; `refine` applies later rules to the text in it. -/
def emphasizeOnce (mark : Char) (refine : List Span → List Span) (spans : List Span) :
    Option (List Span) :=
  (Run.firstPair? [] (Run.all mark spans.length 0 none spans)).map fun (opener, closer, width) =>
    let start := opener.start + opener.length
    let inner := refine ((spans.take closer.start).drop start)
    spans.take (start - width) ++ (if width = 2 then strong inner else emphasis inner)
      :: spans.drop (closer.start + width)

def emphasizeFrom (mark : Char) (refine : List Span → List Span) :
    (fuel : Nat) → List Span → List Span
  | 0, spans => spans
  | fuel + 1, spans =>
    match emphasizeOnce mark refine spans with
    | some spans => emphasizeFrom mark refine fuel spans
    | none => spans

def emphasize (mark : Char) : Pass := fun refine spans =>
  emphasizeFrom mark refine spans.length spans

end Reckon.Markup.Span
