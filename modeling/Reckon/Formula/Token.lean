import Reckon.Decimal.Read

/-!
Tokens of the formula language.

A token is the longest one that begins where the previous one ended, blanks aside: a number takes
its fraction and its exponent as far as they are complete, a name takes every letter, digit and
underscore, and two asterisks are one token. Any other character is a token of its own.
-/

set_option autoImplicit false

namespace Reckon.Formula

inductive Token where
  | number (literal : List Char)
  | name (letters : List Char)
  | plus
  | minus
  | times
  | divide
  | power
  | opening
  | closing
  | comma
  | stray (found : Char)
  deriving DecidableEq, Repr

namespace Token

def chars : Token → List Char
  | number literal => literal
  | name letters => letters
  | plus => ['+']
  | minus => ['-']
  | times => ['*']
  | divide => ['/']
  | power => ['*', '*']
  | opening => ['(']
  | closing => [')']
  | comma => [',']
  | stray found => [found]

def first (t : Token) : Char :=
  t.chars.headD ' '

def startsName (c : Char) : Bool :=
  Text.isAsciiLetter c || c == '_'

def continuesName (c : Char) : Bool :=
  startsName c || Text.isAsciiDigit c

def fractionPart : List Char → List Char
  | '.' :: rest => '.' :: rest.takeWhile Text.isAsciiDigit
  | _ => []

def someDigits? (cs : List Char) : Option (List Char) :=
  match cs.takeWhile Text.isAsciiDigit with
  | [] => none
  | digits => some digits

def exponentPart : List Char → List Char
  | mark :: sign :: rest =>
    if mark = 'e' ∨ mark = 'E' then
      if sign = '+' ∨ sign = '-' then
        match someDigits? rest with
        | some digits => mark :: sign :: digits
        | none => []
      else
        match someDigits? (sign :: rest) with
        | some digits => mark :: digits
        | none => []
    else []
  | _ => []

def numberPart (cs : List Char) : List Char :=
  let units := cs.takeWhile Text.isAsciiDigit
  let cs := cs.drop units.length
  let fraction := fractionPart cs
  units ++ fraction ++ exponentPart (cs.drop fraction.length)

def literalValue (literal : List Char) : Float :=
  match Decimal.unsigned? false literal with
  | some (value, _) => value
  | none => 0

def ofFront (c : Char) (rest : List Char) : Token :=
  if Text.isAsciiDigit c then number (numberPart (c :: rest))
  else if startsName c then name (c :: rest.takeWhile continuesName)
  else if c = '+' then plus
  else if c = '-' then minus
  else if c = '*' then
    match rest with
    | '*' :: _ => power
    | _ => times
  else if c = '/' then divide
  else if c = '(' then opening
  else if c = ')' then closing
  else if c = ',' then comma
  else stray c

end Token

structure Lexeme where
  position : Nat
  token : Token
  deriving DecidableEq, Repr

/-- The tokens of the characters, the first of which stands at `position`; `fuel` is at least their
number. -/
def lexemesFrom : (fuel position : Nat) → List Char → List Lexeme
  | 0, _, _ => []
  | _ + 1, _, [] => []
  | fuel + 1, position, c :: rest =>
    if Text.isBlank c then lexemesFrom fuel (position + 1) rest
    else
      let token := Token.ofFront c rest
      let width := token.chars.length
      ⟨position, token⟩ :: lexemesFrom fuel (position + width) ((c :: rest).drop width)

def lexemes (cs : List Char) : List Lexeme :=
  lexemesFrom cs.length 0 cs

end Reckon.Formula
