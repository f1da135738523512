import Reckon.Document.Token

/-!
The nodes of a document.

A node is read from the tokens in front and gets a number; what is left out where a node may be
missing is an empty plain scalar. An alias is the number of the node with its anchor, which may be
one that is not complete yet, so nodes may contain themselves.
-/

set_option autoImplicit false

namespace Reckon.Document

inductive Content where
  | scalar (word : List Char)
  | list (items : List Nat)
  | record (fields : List (Nat × Nat))
  deriving Inhabited

structure Node where
  tag : Tag
  content : Content
  deriving Inhabited

structure Remaining where
  tokens : List Token
  trouble : Trouble
  handles : Handles
  nodes : Array Node
  anchors : List (List Char × Nat)

abbrev Parse := StateT Remaining Attempt

namespace Parse

def peek : Parse Token := do
  let s ← get
  match s.tokens with
  | t :: _ => return t
  | [] => throw s.trouble

def advance : Parse Unit :=
  modify fun s => { s with tokens := s.tokens.drop 1 }

def accept (t : Token) : Parse Bool := do
  if (← peek) = t then
    advance
    return true
  else return false

def expect (t : Token) : Parse Unit := do
  if !(← accept t) then throw .illFormed

/-- A new node, under its anchor if it has one; no other node may have that anchor. -/
def newNode (anchor : Option (List Char)) (tag : Tag) (content : Content) : Parse Nat := do
  let s ← get
  let number := s.nodes.size
  match anchor with
  | none => set { s with nodes := s.nodes.push ⟨tag, content⟩ }
  | some name =>
    if (s.anchors.lookup name).isSome then throw .illFormed
    set { s with nodes := s.nodes.push ⟨tag, content⟩, anchors := (name, number) :: s.anchors }
  return number

def fill (number : Nat) (content : Content) : Parse Nat := do
  modify fun s => { s with nodes := s.nodes.modify number ({ · with content }) }
  return number

def missing : Parse Nat :=
  newNode none .null (.scalar [])

def nameOf (t : WrittenTag) : Parse (List Char) := do
  t.name (← get).handles

def properties : Parse (Option (List Char) × Option (List Char)) := do
  match ← peek with
  | .anchor anchor =>
    advance
    match ← peek with
    | .tag tag => advance; return (some anchor, some (← nameOf tag))
    | _ => return (some anchor, none)
  | .tag tag =>
    advance
    match ← peek with
    | .anchor anchor => advance; return (some anchor, some (← nameOf tag))
    | _ => return (none, some (← nameOf tag))
  | _ => return (none, none)

/-- The tag of a scalar: told by its name, or by its looks if it is plain or the name tells
nothing. -/
def scalarTag (name : Option (List Char)) (plain : Bool) (word : List Char) : Tag :=
  match name with
  | some ['!'] => .ofWord word
  | some name => .ofName name
  | none => if plain then .ofWord word else .text

def collectionTag (name : Option (List Char)) (usual : Tag) : Tag :=
  match name with
  | none | some ['!'] => usual
  | some name => .ofName name

/-- Where a node stands: in brackets, in a block, or in a record of a block, where the dashes of a
list need no indentation. -/
inductive Place where
  | brackets
  | block
  | field
  deriving DecidableEq, Repr

def endsMissing (stops : List Token) : Parse Bool := do
  return stops.contains (← peek)

mutual

def node (fuel : Nat) (place : Place) : Parse Nat := do
  match fuel with
  | 0 => throw .illFormed
  | fuel + 1 =>
    match ← peek with
    | .alias name =>
      advance
      Attempt.ofOption ((← get).anchors.lookup name)
    | _ =>
      let (anchor, tag) ← properties
      content fuel place anchor tag

def content (fuel : Nat) (place : Place) (anchor tag : Option (List Char)) : Parse Nat := do
  match fuel with
  | 0 => throw .illFormed
  | fuel + 1 =>
    let inBlock := place ≠ .brackets
    let newList := newNode anchor (collectionTag tag .list) (.list [])
    let newRecord := newNode anchor (collectionTag tag .record) (.record [])
    let empty : Parse Nat :=
      if anchor.isSome || tag.isSome then newNode anchor (scalarTag tag true []) (.scalar [])
      else throw .illFormed
    match ← peek with
    | .dash =>
      if place = .field then
        let number ← newList
        fill number (.list (← flushItems fuel))
      else empty
    | .scalar plain word =>
      advance
      newNode anchor (scalarTag tag plain word) (.scalar word)
    | .openList =>
      advance
      let number ← newList
      fill number (.list (← bracketItems fuel true))
    | .openRecord =>
      advance
      let number ← newRecord
      fill number (.record (← bracketFields fuel true))
    | t =>
      if inBlock ∧ t = .blockList then
        advance
        let number ← newList
        fill number (.list (← blockItems fuel))
      else if inBlock ∧ t = .blockRecord then
        advance
        let number ← newRecord
        fill number (.record (← blockFields fuel))
      else empty

def optional (fuel : Nat) (place : Place) (stops : List Token) : Parse Nat := do
  match fuel with
  | 0 => throw .illFormed
  | fuel + 1 => if ← endsMissing stops then missing else node fuel place

def flushItems (fuel : Nat) : Parse (List Nat) := do
  match fuel with
  | 0 => throw .illFormed
  | fuel + 1 =>
    if ← accept .dash then
      let item ← optional fuel .block [.dash, .key, .value, .blockEnd]
      return item :: (← flushItems fuel)
    else return []

def blockItems (fuel : Nat) : Parse (List Nat) := do
  match fuel with
  | 0 => throw .illFormed
  | fuel + 1 =>
    if ← accept .dash then
      let item ← optional fuel .block [.dash, .blockEnd]
      return item :: (← blockItems fuel)
    else
      expect .blockEnd
      return []

def valueOf (fuel : Nat) (place : Place) (stops : List Token) : Parse Nat := do
  match fuel with
  | 0 => throw .illFormed
  | fuel + 1 => if ← accept .value then optional fuel place stops else missing

def blockFields (fuel : Nat) : Parse (List (Nat × Nat)) := do
  match fuel with
  | 0 => throw .illFormed
  | fuel + 1 =>
    let stops := [Token.key, .value, .blockEnd]
    if ← accept .key then
      let key ← optional fuel .field stops
      let value ← valueOf fuel .field stops
      return (key, value) :: (← blockFields fuel)
    else
      expect .blockEnd
      return []

def bracketItems (fuel : Nat) (first : Bool) : Parse (List Nat) := do
  match fuel with
  | 0 => throw .illFormed
  | fuel + 1 =>
    if ← accept .closeList then return []
    if !first then expect .comma
    if ← accept .closeList then return []
    let stops := [Token.comma, .closeList]
    if ← accept .key then
      let pair ← newNode none .record (.record [])
      let key ← optional fuel .brackets (.value :: stops)
      let value ← valueOf fuel .brackets stops
      let item ← fill pair (.record [(key, value)])
      return item :: (← bracketItems fuel false)
    else
      let item ← node fuel .brackets
      return item :: (← bracketItems fuel false)

/-- The fields of a record in brackets; a comma stands before all but the first. -/
def bracketFields (fuel : Nat) (first : Bool) : Parse (List (Nat × Nat)) := do
  match fuel with
  | 0 => throw .illFormed
  | fuel + 1 =>
    if ← accept .closeRecord then return []
    if !first then expect .comma
    if ← accept .closeRecord then return []
    let stops := [Token.comma, .closeRecord]
    let field ← if ← accept .key then
        let key ← optional fuel .brackets (.value :: stops)
        let value ← valueOf fuel .brackets stops
        pure (key, value)
      else
        let key ← node fuel .brackets
        pure (key, ← missing)
    return field :: (← bracketFields fuel false)

end

/-- The directives before a document: one may tell the version, and each handle is told once. The
default handles are added to those told. -/
def directives (told : Bool) (handles : Handles) : (fuel : Nat) → Parse Unit
  | 0 => throw .illFormed
  | fuel + 1 => do
    match ← peek with
    | .directive .other => advance; directives told handles fuel
    | .directive (.version major) =>
      advance
      if told || major != 1 then throw .illFormed
      directives true handles fuel
    | .directive (.handle name start) =>
      advance
      if (handles.lookup name).isSome then throw .illFormed
      directives told ((name, start) :: handles) fuel
    | _ => modify fun s => { s with handles := handles ++ Handles.initial }

def skipEnds : (fuel : Nat) → Parse Unit
  | 0 => pure ()
  | fuel + 1 => do
    if ← accept .documentEnd then skipEnds fuel

/-- The root of the document of the tokens, if there is exactly one document, or none at all. -/
def document (fuel : Nat) : Parse (Option Nat) := do
  let starts ← endsMissing [.documentStart, .textEnd]
  let directed := match ← peek with
    | .directive _ => true
    | _ => false
  if !(starts || directed) then
    let root ← node fuel .block
    let _ ← skipEnds fuel
    expect .textEnd
    return some root
  else if ← accept .textEnd then return none
  else
    directives false [] fuel
    expect .documentStart
    let empty ← endsMissing [.documentStart, .documentEnd, .textEnd]
    let root ← if empty then missing else node fuel .block
    let _ ← skipEnds fuel
    expect .textEnd
    return some root

end Parse

def nodes (cs : List Char) : Attempt (Array Node × Option Nat) := do
  let (tokens, trouble) := tokens cs
  let start : Remaining := ⟨tokens, trouble, .initial, #[], []⟩
  let (root, s) ← (Parse.document (5 * tokens.length + 5)).run start
  return (s.nodes, root)

end Reckon.Document
