import Reckon.Text.Digit
import Reckon.Text.Small

/-!
Tags: which of them stand for blocks, and text between and inside tags.
-/

set_option autoImplicit false

namespace Reckon.Markup

def blockTags : List String :=
  ["address", "article", "aside", "blockquote", "details", "div", "dl", "fieldset", "figcaption",
   "figure", "footer", "form", "h1", "h2", "h3", "h4", "h5", "h6", "header", "hgroup", "hr", "main",
   "menu", "nav", "ol", "p", "pre", "section", "table", "ul", "canvas", "colgroup", "dd", "body",
   "dt", "group", "html", "iframe", "li", "legend", "math", "map", "noscript", "output", "object",
   "option", "progress", "script", "style", "summary", "tbody", "td", "textarea", "tfoot", "th",
   "thead", "tr", "video"]

def isBlockTag (name : List Char) : Bool :=
  blockTags.contains (String.ofList (Text.smallChars name))

/-- Whether HTML is a block: it begins with the tag of one, or with a comment or instruction. -/
def isBlockPiece : List Char → Bool
  | '<' :: rest =>
    let rest := match rest with
      | '/' :: rest => rest
      | rest => rest
    let name := rest.takeWhile fun c => c != ' ' && c != '>'
    match name with
    | [] => false
    | first :: _ => "!?@%".toList.contains first || isBlockTag name
  | _ => false

/-- Whether a character reference follows an ampersand: a name or a number up to a semicolon. -/
def isReference (cs : List Char) : Bool :=
  let isWord := fun c : Char => Text.isAsciiLetter c || Text.isAsciiDigit c
  let isHex := fun c : Char => ("abcdefABCDEF".toList.contains c) || Text.isAsciiDigit c
  let closed := fun (test : Char → Bool) (cs : List Char) =>
    !(cs.takeWhile test).isEmpty && (cs.dropWhile test).head? == some ';'
  match cs with
  | '#' :: rest =>
    closed Text.isAsciiDigit rest || (match rest with
      | 'x' :: digits | 'X' :: digits => closed isHex digits
      | _ => false)
  | cs => closed isWord cs

/-- A character that is text, in tags or with `quotes` inside a tag. An ampersand is a character
like others here. -/
def escapeChar (quotes : Bool) (c : Char) : List Char :=
  if c = '&' then "&amp;".toList
  else if c = '<' then "&lt;".toList
  else if c = '>' then "&gt;".toList
  else if quotes && c == '"' then "&quot;".toList
  else [c]

def escapeAll (quotes : Bool) (cs : List Char) : List Char :=
  cs.flatMap (escapeChar quotes)

def escape (quotes : Bool) : List Char → List Char
  | [] => []
  | c :: rest =>
    if c = '&' && isReference rest then c :: escape quotes rest
    else escapeChar quotes c ++ escape quotes rest

end Reckon.Markup
