import Reckon.Markup.Block

/-!
Reading blocks.

A text is cut at empty lines, and each part is read as the first kind of block that it can be. What
is left of a part, and what stands inside items and quotes, is read in the same way.
-/

set_option autoImplicit false

namespace Reckon.Markup

structure Definition where
  label : List Char
  target : List Char
  title : List Char

abbrev Definitions := List Definition

inductive Place where
  | document
  | quote
  | list
  | item
  deriving DecidableEq, Repr

inductive Mode where
  | plain
  | outdented
  | quoted
  | loose
  | tight
  deriving DecidableEq, Repr

structure Context where
  place : Place
  mode : Mode

abbrev Reading := StateM Definitions

abbrev Reader := Context → List Block → List Lines → Reading (List Block)

/-- What a step gives: the parts so far, and texts to be read before the others. -/
abbrev Step := Reading (List Block × List Lines)

namespace Layout

def next (lines : Lines) : List Lines :=
  if lines.all List.isEmpty && lines.length ≤ 1 then [] else [lines]

def dropEmpty (lines : Lines) : Lines :=
  lines.dropWhile List.isEmpty

def dropEmptyRight (lines : Lines) : Lines :=
  (lines.reverse.dropWhile List.isEmpty).reverse

def skipEmpty (parts : List Block) (lines : Lines) : Step :=
  match lines with
  | [_] => return (Block.extendCode ['\n', '\n'] parts, [])
  | _ => return (Block.extendCode ['\n'] parts, next (lines.drop 1))

def endsWithList (parts : List Block) : Bool :=
  match Block.last? parts with
  | some (.list ..) => true
  | _ => false

/-- How often the last part is entered on the way to an indentation, and how many levels of lists
that is; `fuel` bounds the way. -/
def depth : (fuel steps level indent : Nat) → List Block → Nat × Nat
  | 0, steps, level, _, _ => (steps, level)
  | fuel + 1, steps, level, indent, parts =>
    if indent ≤ level then (steps, level)
    else
      match Block.last? parts with
      | some (.list _ items) => depth fuel (steps + 1) (level + 1) indent items
      | some (.item parts) => depth fuel (steps + 1) level indent parts
      | _ => (steps, level)

def within (change : Place → List Block → Reading (List Block)) :
    (steps : Nat) → Place → List Block → Reading (List Block)
  | 0, place, parts => change place parts
  | steps + 1, _, parts =>
    Block.changeLastM (fun
      | .list numbered items => return .list numbered (← within change steps .list items)
      | .item parts => return .item (← within change steps .item parts)
      | part => return part) parts

/-- Reads an indented text after a list or in an item: into the list or item that its indentation
reaches. -/
def readInner (read : Reader) (context : Context) (parts : List Block) (lines : Lines) : Step := do
  let indent := ((lines.head?.map Line.indent).getD 0) / tabWidth
  let level := if context.mode = .tight then 1 else 0
  let (steps, level) := depth (2 * indent + 2) 0 level indent parts
  let lines := lines.map (Line.outdented level)
  let inside : Context := ⟨.item, .outdented⟩
  let parts ←
    if context.place = .item then
      if endsWithList parts then
        Block.changeLastM (fun
          | .list numbered items => return .list numbered (← read ⟨.list, .outdented⟩ items [lines])
          | part => return part) parts
      else read inside parts [lines]
    else
      within (fun place parts => do
        if place = .item then read inside parts [lines]
        else
          match Block.last? parts with
          | some (.item _) =>
            Block.changeLastM (fun
              | .item parts => return .item (← read inside (Block.opened parts) (Lines.parts lines))
              | part => return part) parts
          | _ => return parts ++ [.item (← read inside [] [lines])]) steps context.place parts
  return (parts, [])

def readCode (parts : List Block) (lines : Lines) : Step :=
  let (code, after) := Lines.code lines
  let text := dropBlanksRight (joined code) ++ ['\n']
  let parts := match Block.last? parts with
    | some (.code _) => Block.extendCode ('\n' :: text) parts
    | _ => parts ++ [.code text]
  return (parts, next after)

def readHeading (read : Reader) (context : Context) (parts : List Block) (lines : Lines)
    (place level : Nat) (text : List Char) : Step := do
  let before := lines.take place
  let after := lines.drop (place + 1)
  let parts ← if place = 0 then pure parts else read context parts [before]
  let after := if context.mode = .loose then after.map (Line.outdented 1) else after
  return (parts ++ [.heading level text], next after)

def readRule (read : Reader) (context : Context) (parts : List Block) (lines : Lines)
    (place : Nat) : Step := do
  let before := dropEmptyRight (lines.take place)
  let parts ← if before.isEmpty then pure parts else read context parts [before]
  return (parts ++ [.rule], next (dropEmpty (lines.drop (place + 1))))

/-- Reads the items of a list; what begins indented goes into the item before it. -/
def readItems (read : Reader) : (items : List Block) → List Lines → Reading (List Block)
  | items, [] => return items
  | items, lines :: rest => do
    let isInside := (lines.head?.map Line.isIndented).getD false
    let items ←
      if isInside then
        Block.changeLastM (fun
          | .item parts => return .item (← read ⟨.item, .tight⟩ parts [lines])
          | part => return part) items
      else pure (items ++ [.item (← read ⟨.item, .tight⟩ [] [lines])])
    readItems read items rest

def readList (read : Reader) (context : Context) (numbered : Bool) (parts : List Block)
    (lines : Lines) : Step := do
  let items := Lines.itemsFrom [] lines
  if endsWithList parts then
    let parts ← Block.changeLastM (fun
      | .list numbered old => do
        let old := Block.changeLast (fun
          | .item parts => .item (Block.loosened parts)
          | part => part) old
        let first ← read ⟨.item, .loose⟩ [] (items.take 1)
        return .list numbered (← readItems read (old ++ [.item first]) (items.drop 1))
      | part => return part) parts
    return (parts, [])
  else if context.place = .list then return (← readItems read parts items, [])
  else return (parts ++ [.list numbered (← readItems read [] items)], [])

/-- Reads the quote that begins at the given line, after what stands before it. After another quote
it goes on with that one. -/
def readQuote (read : Reader) (context : Context) (parts : List Block) (lines : Lines)
    (place : Nat) : Step := do
  let before := if place = 0 then [[]] else lines.take place
  let parts ← read context parts [before]
  let inside := Lines.parts ((lines.drop place).map Line.unquoted)
  let readInside := fun parts => read ⟨.quote, .quoted⟩ parts inside
  match Block.last? parts with
  | some (.quote _) =>
    let parts ← Block.changeLastM (fun
      | .quote parts => return .quote (← readInside parts)
      | part => return part) parts
    return (parts, [])
  | _ => return (parts ++ [.quote (← readInside [])], [])

def readText (context : Context) (parts : List Block) (lines : Lines) : List Block :=
  let text := joined lines
  if text.all Text.isBlank then parts
  else if context.mode != .tight then parts ++ [.paragraph (dropBlanks text)]
  else
    match parts.reverse with
    | .bare before :: others =>
      let text := if others.isEmpty then dropBlanks text else text
      (.bare (before ++ '\n' :: text) :: others).reverse
    | [] => [.bare (dropBlanks text)]
    | _ => parts ++ [.bare ('\n' :: text)]

def title? (line : List Char) : Option (List Char) :=
  match trimSpaces line with
  | first :: rest =>
    let last := if first = '(' then ')' else first
    if (first = '"' ∨ first = Char.ofNat 39 ∨ first = '(') ∧ rest.getLast? = some last then
      some rest.dropLast
    else none
  | [] => none

/-- The definition that begins with a line, and the lines after it. The target and the title may
stand on lines of their own. -/
def definition? : Lines → Option (Definition × Lines)
  | [] => none
  | line :: rest =>
    if Line.isIndented line then none
    else
      match line.dropWhile isSpace with
      | '[' :: body =>
        let label := body.takeWhile fun c => c != '[' && c != ']'
        match body.drop label.length with
        | ']' :: ':' :: after =>
          let after := after.dropWhile isSpace
          let (after, rest) := if after.isEmpty then (rest.headD [], rest.drop 1) else (after, rest)
          let after := after.dropWhile isSpace
          let target := after.takeWhile fun c => !Text.isBlank c
          let after := (after.drop target.length).dropWhile isSpace
          let made := fun title : List Char =>
            let target := target.dropWhile (· == '<')
            let target := (target.reverse.dropWhile (· == '>')).reverse
            (⟨Text.smallChars (Text.trimChars label), target, title⟩ : Definition)
          if target.isEmpty then none
          else if !after.isEmpty then (title? after).map fun title => (made title, rest)
          else
            match (rest.head?).bind title? with
            | some title => some (made title, rest.drop 1)
            | none => some (made [], rest)
        | _ => none
      | _ => none

def splitDefinition? : Lines → Option (Lines × Definition × Lines)
  | [] => none
  | line :: rest =>
    match definition? (line :: rest) with
    | some (definition, after) => some ([], definition, after)
    | none => (splitDefinition? rest).map fun (before, found) => (line :: before, found)

def readRest (context : Context) (parts : List Block) (lines : Lines) : Step := do
  match splitDefinition? lines with
  | some (before, definition, after) =>
    modify (definition :: ·)
    let isBlank := fun lines : Lines => lines.all (·.all Text.isBlank)
    return (parts, (if isBlank before then [] else [dropEmptyRight before])
      ++ (if isBlank after then [] else [dropEmpty after]))
  | none => return (readText context parts lines, [])

def step (read : Reader) (context : Context) (parts : List Block) (lines : Lines) : Step :=
  let first := lines.headD []
  let inList := context.place = .item || endsWithList parts
  if first.isEmpty then skipEmpty parts lines
  else if Line.isIndented first && context.mode != .outdented && inList then
    readInner read context parts lines
  else if Line.isIndented first then readCode parts lines
  else
    match Row.table? lines with
    | some table => return (parts ++ [.table table], [])
    | none =>
      let headings := lines.mapIdx fun place line =>
        (Line.heading? line).map fun (level, text) => (place, level, text)
      match headings.findSome? id, (lines[1]?).bind Line.underline? with
      | some (place, level, text), _ => readHeading read context parts lines place level text
      | none, some level =>
        return (parts ++ [.heading level (Text.trimChars first)], next (lines.drop 2))
      | none, none =>
        match lines.findIdx? Line.isRule with
        | some place => readRule read context parts lines place
        | none =>
          if (Line.item? true first).isSome then readList read context true parts lines
          else if (Line.item? false first).isSome then readList read context false parts lines
          else
            match lines.findIdx? fun line => (Line.quoted? line).isSome with
            | some place => readQuote read context parts lines place
            | none => readRest context parts lines

/-- Reads texts; `fuel` bounds the number of blocks and how deep they stand inside each other. -/
def read : (fuel : Nat) → Reader
  | 0, _, parts, _ => return parts
  | _ + 1, _, parts, [] => return parts
  | fuel + 1, context, parts, lines :: rest => do
    let (parts, more) ← step (read fuel) context parts lines
    read fuel context parts (more ++ rest)

end Layout

def Block.ofLines (lines : Lines) : List Block × Definitions :=
  let size := lines.foldl (fun size line => size + line.length + 1) 0
  (Layout.read (4 * size + 4) ⟨.document, .plain⟩ [] (Lines.parts lines)).run []

end Reckon.Markup
