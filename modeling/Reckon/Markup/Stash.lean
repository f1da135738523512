import Reckon.Decimal.Read
import Reckon.Text.Lines

/-!
Pieces of HTML that are kept apart from marked-up text.

Where such a piece belongs, the text holds its number between two control characters. Nothing else
in a text holds these characters: they are taken out of it first.
-/

set_option autoImplicit false

namespace Reckon.Markup

abbrev Lines := List (List Char)

def joined (lines : Lines) : List Char :=
  List.intercalate ['\n'] lines

def openMark : Char := Char.ofNat 2

def closeMark : Char := Char.ofNat 3

abbrev Stash := Array (List Char)

namespace Stash

def mark (number : Nat) : List Char :=
  openMark :: Decimal.digits number ++ [closeMark]

def keep (piece : List Char) (stash : Stash) : List Char × Stash :=
  (mark stash.size, stash.push piece)

def piece? (stash : Stash) : List Char → Option (List Char × List Char)
  | c :: rest =>
    let digits := rest.takeWhile Text.isAsciiDigit
    match rest.drop digits.length with
    | d :: after =>
      if c = openMark ∧ d = closeMark ∧ !digits.isEmpty then
        (stash[Decimal.digitsValue digits]?).map fun piece => (piece, after)
      else none
    | [] => none
  | [] => none

/-- The text with the pieces in their places; `depth` is how deep pieces stand inside pieces, and
`fuel` at least the number of characters. -/
def restoreFrom (stash : Stash) : (depth fuel : Nat) → List Char → List Char
  | 0, _, cs => cs
  | _ + 1, 0, cs => cs
  | _ + 1, _ + 1, [] => []
  | depth + 1, fuel + 1, c :: rest =>
    match stash.piece? (c :: rest) with
    | some (piece, after) =>
      restoreFrom stash depth piece.length piece ++ restoreFrom stash (depth + 1) fuel after
    | none => c :: restoreFrom stash (depth + 1) fuel rest

def restore (stash : Stash) (cs : List Char) : List Char :=
  restoreFrom stash (stash.size + 1) cs.length cs

end Stash

end Reckon.Markup
