import Reckon.Markup.Inline
import Reckon.Markup.Raw

/-!
Documents as HTML.

Only this module writes the tags of blocks and spans. Each block is on lines of its own; characters
beyond ASCII are written as references.
-/

set_option autoImplicit false

namespace Reckon.Markup.Html

def charsInFront : List Span → List Char
  | .char c :: rest | .literal c :: rest => c :: charsInFront rest
  | _ => []

def isBlankInFront (spans : List Span) : Bool :=
  match spans.dropWhile Span.isBlank with
  | .char _ :: _ | .literal _ :: _ | .raw _ :: _ => false
  | _ => true

def property (name : String) (value : List Char) : List Char :=
  " ".toList ++ name.toList ++ "=\"".toList ++ escape true value ++ ['"']

def titleProperty (title : Option (List Char)) : List Char :=
  (title.map (property "title")).getD []

def reference (c : Char) : List Char :=
  "&#".toList ++ Decimal.digits c.toNat ++ [';']

def mailChar (c : Char) : List Char :=
  if c = '&' then "&amp;".toList else if c = '"' then "&quot;".toList else reference c

def element (name : String) (properties text : List Char) : List Char :=
  "<".toList ++ name.toList ++ properties ++ ['>'] ++ text ++ "</".toList ++ name.toList ++ ['>']

mutual

def span : Span → List Char
  | .char c | .literal c => escapeChar false c
  | .raw html => html
  | .code text => element "code" [] (escapeAll false text)
  | .lineBreak => "<br />\n".toList
  | .image target title text =>
    "<img".toList ++ property "alt" text ++ property "src" target ++ titleProperty title
      ++ " />".toList
  | .link target title inner =>
    element "a" (property "href" target ++ titleProperty title) (spans false inner)
  | .mail address =>
    let target := ("mailto:".toList ++ address).flatMap reference
    element "a" (" href=\"".toList ++ target ++ ['"']) (address.flatMap mailChar)
  | .emphasis inner => element "em" [] (spans false inner)
  | .strong inner => element "strong" [] (spans false inner)

/-- Spans in tags. Blanks are left out that stand alone after a break; `afterBreak` tells whether
the first spans do. -/
def spans (afterBreak : Bool) : List Span → List Char
  | [] => []
  | s :: rest =>
    if afterBreak && s.isBlank then spans true rest
    else
      let isPlain := s.isMark '&' && isReference (charsInFront rest)
      let isBreak := match s with
        | .lineBreak => true
        | _ => false
      (if isPlain then ['&'] else span s) ++ spans (isBreak && isBlankInFront rest) rest

end

def container (name : String) (inner : List Char) : List Char :=
  element name [] ('\n' :: inner)

def codeText (text : List Char) : List Char :=
  escapeAll false (dropBlanksRight text) ++ ['\n']

def cell (write : List Char → List Char) (name : String) (alignment : Option Alignment)
    (text : List Char) : List Char :=
  let style := match alignment with
    | some alignment => property "style" ("text-align: ".toList ++ alignment.name.toList ++ [';'])
    | none => []
  element name style (write text) ++ ['\n']

def row (write : List Char → List Char) (name : String) (columns : List (Option Alignment))
    (cells : List (List Char)) : List Char :=
  container "tr" ((columns.zip cells).flatMap fun (alignment, text) =>
    cell write name alignment text) ++ ['\n']

def table (write : List Char → List Char) (t : Row.Table) : List Char :=
  let rows := if t.rows.isEmpty then [t.columns.map fun _ => []] else t.rows
  container "table"
    (container "thead" (row write "th" t.columns t.header) ++ '\n'
      :: container "tbody" (rows.flatMap (row write "td" t.columns)) ++ ['\n'])

def isAlone (stash : Stash) (inner : List Span) : Bool :=
  match inner with
  | [.raw html] => isBlockPiece html
  | inner =>
    match stash.piece? (charsInFront inner) with
    | some (piece, []) => isBlockPiece piece && (charsInFront inner).length == inner.length
    | _ => false

mutual

def block (read : List Char → List Span) (stash : Stash) : Block → List Char
  | .heading level text => element ("h" ++ Decimal.whole level) [] (spans false (read text))
  | .paragraph text =>
    let inner := read text
    let html := spans false inner
    if isAlone stash inner then html else element "p" [] html
  | .bare text => spans false (read text)
  | .code text => element "pre" [] (element "code" [] (codeText text))
  | .rule => "<hr />".toList
  | .table t => table (fun text => spans false (read text)) t
  | .quote parts => element "blockquote" [] (blocks read stash true parts)
  | .list numbered items =>
    element (if numbered then "ol" else "ul") [] (blocks read stash true items)
  | .item parts => element "li" [] (blocks read stash true parts)

/-- Blocks in tags, each behind the end of a line; `isFirst` tells whether they are the first ones.
Bare text has line ends of its own. -/
def blocks (read : List Char → List Span) (stash : Stash) (isFirst : Bool) :
    List Block → List Char
  | [] => []
  | part :: rest =>
    let lead := if isFirst && !part.isBare then ['\n'] else []
    let isClosed := part.isBare || (rest.head?).any Block.isBare
    lead ++ block read stash part ++ (if isClosed then [] else ['\n'])
      ++ blocks read stash false rest

end

def toAscii (cs : List Char) : List Char :=
  cs.flatMap fun c => if c.toNat < 128 then [c] else reference c

def ofText (s : String) : String :=
  let lines := Source.lines s
  let (lines, stash) := Fence.keepAll lines.length #[] lines
  let (lines, stash) := Raw.keepAll stash lines
  let (parts, definitions) := Block.ofLines lines
  let html := Text.trimChars (blocks (Span.ofText definitions) stash true parts)
  String.ofList (toAscii (Text.trimChars (stash.restore html)))

end Reckon.Markup.Html
