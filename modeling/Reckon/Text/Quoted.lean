import Reckon.Text.Printable

/-!
Texts in quotes, as messages show them.

A text is quoted with apostrophes unless it holds an apostrophe and no double quote. The quote
and the backslash are escaped, and a character without a printed shape is written as its code.
-/

set_option autoImplicit false

namespace Reckon.Text

def hexDigit (upper : Bool) (n : Nat) : Char :=
  if n < 10 then Char.ofNat (48 + n) else Char.ofNat ((if upper then 55 else 87) + n)

def hex (upper : Bool) : (width : Nat) → Nat → List Char
  | 0, _ => []
  | width + 1, n => hex upper width (n / 16) ++ [hexDigit upper (n % 16)]

/-- A character by its code: two digits after `x`, four after `u` or eight after `U`. -/
def codeEscape (upper : Bool) (c : Char) : List Char :=
  let n := c.toNat
  if n ≤ 0xff then ['\\', 'x'] ++ hex upper 2 n
  else if n ≤ 0xffff then ['\\', 'u'] ++ hex upper 4 n
  else ['\\', 'U'] ++ hex upper 8 n

def apostrophe : Char := Char.ofNat 39

def quoteFor (cs : List Char) : Char :=
  if cs.contains apostrophe && !cs.contains '"' then '"' else apostrophe

def quotedChar (quote c : Char) : List Char :=
  if c = quote || c = '\\' then ['\\', c]
  else if c = '\n' then ['\\', 'n']
  else if c = '\r' then ['\\', 'r']
  else if c = '\t' then ['\\', 't']
  else if isPrintable c then [c]
  else codeEscape false c

def quoted (s : String) : String :=
  let cs := s.toList
  let quote := quoteFor cs
  String.ofList (quote :: cs.flatMap (quotedChar quote) ++ [quote])

def quotedByte (quote : Char) (byte : UInt8) : List Char :=
  if byte < 127 then quotedChar quote (Char.ofNat byte.toNat)
  else ['\\', 'x'] ++ hex false 2 byte.toNat

def quotedBytes (content : List UInt8) : String :=
  let quote := quoteFor (content.map fun byte => Char.ofNat byte.toNat)
  String.ofList ('b' :: quote :: content.flatMap (quotedByte quote) ++ [quote])

end Reckon.Text
