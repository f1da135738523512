import Reckon.Markup.Row

/-!
Blocks of marked-up text: headings, paragraphs, lists, quotes, tables, code and rules.

Items and quotes hold blocks. In an item, text may stand between blocks without being one.
-/

set_option autoImplicit false

namespace Reckon.Markup

inductive Block where
  | heading (level : Nat) (text : List Char)
  | paragraph (text : List Char)
  | bare (text : List Char)
  | code (text : List Char)
  | rule
  | table (table : Row.Table)
  | quote (parts : List Block)
  | list (numbered : Bool) (items : List Block)
  | item (parts : List Block)
  deriving Inhabited

namespace Block

def isBare : Block → Bool
  | bare _ => true
  | _ => false

def last? (parts : List Block) : Option Block :=
  parts.reverse.find? fun part => !part.isBare

def changeLast (change : Block → Block) : List Block → List Block
  | [] => []
  | part :: rest =>
    if part.isBare || rest.any (!·.isBare) then part :: changeLast change rest
    else change part :: rest

def changeLastM {m : Type → Type} [Monad m] (change : Block → m Block) :
    List Block → m (List Block)
  | [] => return []
  | part :: rest => do
    if part.isBare || rest.any (!·.isBare) then
      let rest ← changeLastM change rest
      return part :: rest
    else
      let part ← change part
      return part :: rest

/-- The parts of an item with bare text made paragraphs: the text in front, and the text at the
end. -/
def loosened (parts : List Block) : List Block :=
  let parts := match parts with
    | bare text :: rest => paragraph text :: rest
    | parts => parts
  match parts.reverse with
  | bare text :: rest => (paragraph (dropBlanks text) :: rest).reverse
  | _ => parts

def opened (parts : List Block) : List Block :=
  match parts with
  | bare text :: rest => paragraph text :: rest
  | parts => parts

def extendCode (cs : List Char) (parts : List Block) : List Block :=
  changeLast (fun
    | code text => code (text ++ cs)
    | part => part) parts

end Block

/-! What lines are. -/

namespace Line

def indent (line : List Char) : Nat :=
  (line.takeWhile isSpace).length

/-- The level and the text of a heading. It begins with up to six marks, the marks at its end do not
count, and a backslash belongs to the character after it. -/
def heading? (line : List Char) : Option (Nat × List Char) :=
  let level := min (line.takeWhile (· == '#')).length 6
  if level = 0 then none
  else (text? (line.drop level)).map fun text => (level, Text.trimChars text)
where
  /-- The text up to the marks at the end, unless a backslash stands last. -/
  text? : List Char → Option (List Char)
    | [] => some []
    | '\\' :: [] => none
    | '\\' :: c :: rest => (text? rest).map fun text => '\\' :: c :: text
    | c :: rest =>
      if (c :: rest).all (· == '#') then some [] else (text? rest).map (c :: ·)

/-- The level of the heading that a line underlines: the first one with equals signs in front. -/
def underline? (line : List Char) : Option Nat :=
  let body := dropSpacesRight line
  if body.isEmpty || !body.all (fun c => c == '=' || c == '-') then none
  else some (if body.head? == some '=' then 1 else 2)

def areClose (mark : Char) : (gap : Nat) → List Char → Bool
  | _, [] => true
  | gap, c :: rest =>
    if c = mark then areClose mark 0 rest
    else isSpace c && gap < 2 && areClose mark (gap + 1) rest

def isRule (line : List Char) : Bool :=
  let body := trimSpaces line
  indent line < tabWidth && ['-', '_', '*'].any fun mark =>
    3 ≤ body.count mark && areClose mark 0 body

def afterNumber? (cs : List Char) : Option (List Char) :=
  let digits := cs.takeWhile fun c => (Text.digit? c).isSome
  match cs.drop digits.length with
  | '.' :: rest => if digits.isEmpty then none else some rest
  | _ => none

def afterBullet? : List Char → Option (List Char)
  | mark :: rest => if "*+-".toList.contains mark then some rest else none
  | [] => none

def itemText? (numbered : Bool) (body : List Char) : Option (List Char) :=
  match if numbered then afterNumber? body else afterBullet? body with
  | some (' ' :: rest) => some (rest.dropWhile isSpace)
  | _ => none

def item? (numbered : Bool) (line : List Char) : Option (List Char) :=
  if indent line < tabWidth then itemText? numbered (line.dropWhile isSpace) else none

def anyItem? (line : List Char) : Option (List Char) :=
  (item? true line).or (item? false line)

def isInnerItem (line : List Char) : Bool :=
  let body := line.dropWhile isSpace
  tabWidth ≤ indent line && indent line < 2 * tabWidth
    && ((itemText? true body).or (itemText? false body)).isSome

def quoted? (line : List Char) : Option (List Char) :=
  if tabWidth ≤ indent line then none
  else
    match line.dropWhile isSpace with
    | '>' :: ' ' :: rest | '>' :: rest => some rest
    | _ => none

def unquoted (line : List Char) : List Char :=
  if Text.trimChars line = ['>'] then [] else (quoted? line).getD line

def isIndented (line : List Char) : Bool :=
  tabWidth ≤ indent line

def outdented (level : Nat) (line : List Char) : List Char :=
  if level * tabWidth ≤ indent line then line.drop (level * tabWidth) else line

end Line

namespace Lines

/-- The lines of indented code at the front, without their indentation, and the lines after them. -/
def code : Lines → Lines × Lines
  | [] => ([], [])
  | line :: rest =>
    let line? :=
      if Line.isIndented line then some (line.drop tabWidth)
      else if line.all Text.isBlank then some []
      else none
    match line? with
    | some text =>
      let (inside, after) := code rest
      (text :: inside, after)
    | none => ([], line :: rest)

def parts : Lines → List Lines
  | [] => []
  | [line] => [[line]]
  -- an empty line begins the part after it
  | line :: [] :: next :: rest => [line] :: parts (next :: rest)
  | line :: next :: rest =>
    match parts (next :: rest) with
    | part :: others => (line :: part) :: others
    | [] => [[line]]

/-- The items of a list, given those before, the last one first, each with its lines in reverse. A
line that begins no item continues one; an item inside another one begins an entry of its own. -/
def itemsFrom : (items : List Lines) → Lines → List Lines
  | items, [] => items.reverse.map List.reverse
  | items, line :: rest =>
    match Line.anyItem? line, items with
    | some text, items => itemsFrom ([text] :: items) rest
    | none, [] => itemsFrom [[line]] rest
    | none, last :: before =>
      let isInside := ((last.getLast?).map Line.isIndented).getD false
      if Line.isInnerItem line && !isInside then itemsFrom ([line] :: last :: before) rest
      else itemsFrom ((line :: last) :: before) rest

end Lines

end Reckon.Markup
