/-!
Blank characters, and trimming them from the ends of a text.

A character is blank when it separates words in any script: the ASCII controls from tab to
carriage return and from file separator on, the space, and the wider spaces and separators.
-/

set_option autoImplicit false

namespace Reckon.Text

/-- Whether the character is a blank: a space, tab, line boundary or separator of any script. -/
def isBlank (c : Char) : Bool :=
  let n := c.toNat
  (9 ≤ n && n ≤ 13) || (28 ≤ n && n ≤ 32) || n == 0x85 || n == 0xa0 || n == 0x1680 ||
    (0x2000 ≤ n && n ≤ 0x200a) || n == 0x2028 || n == 0x2029 || n == 0x202f || n == 0x205f ||
    n == 0x3000

/-- Whether the character may stand around a numeral: a blank other than the four ASCII
separators of files, groups, records and units. -/
def isPadding (c : Char) : Bool :=
  isBlank c && !(28 ≤ c.toNat && c.toNat ≤ 31)

def dropAround (drop : Char → Bool) (cs : List Char) : List Char :=
  ((cs.dropWhile drop).reverse.dropWhile drop).reverse

def trimChars (cs : List Char) : List Char :=
  dropAround isBlank cs

def trim (s : String) : String :=
  String.ofList (trimChars s.toList)

end Reckon.Text
