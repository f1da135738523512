import Reckon.Document.Node

/-!
What the nodes of a document stand for.

A collection begins empty and is filled in after all collections on its level have begun, level by
level from the root. So of several faults the one on the higher level counts, and of those on one
level the first. A record takes in the records that are merged into it before it is filled in.
-/

set_option autoImplicit false

namespace Reckon.Document

/-- What a node stands for; the parts of a collection are given by the numbers of their nodes. -/
inductive Shape where
  | scalar (value : Value)
  | list (items : List Nat)
  | set (items : List Nat)
  | pairs (items : List (Nat × Nat))
  | record (fields : List (Nat × Nat))
  deriving Inhabited

/-- The nodes, what some of them stand for, and the collections to fill in next. -/
structure Building where
  nodes : Array Node
  shapes : Array (Option Shape)
  begun : List Nat

abbrev Build := StateT Building Attempt

namespace Build

def node (number : Nat) : Build Node := do
  return (← get).nodes.getD number default

def shape (number : Nat) (s : Shape) : Build Unit :=
  modify fun b => { b with shapes := b.shapes.setIfInBounds number (some s) }

def fieldsOf (number : Nat) : Build (List (Nat × Nat)) := do
  match (← node number).content with
  | .record fields => return fields
  | _ => throw .illFormed

def itemsOf (number : Nat) : Build (List Nat) := do
  match (← node number).content with
  | .list items => return items
  | _ => throw .illFormed

def setFields (number : Nat) (fields : List (Nat × Nat)) : Build Unit :=
  modify fun b =>
    { b with nodes := b.nodes.modify number ({ · with content := .record fields }) }

def hasTag (tag : Tag) (number : Nat) : Build Bool := do
  return (← node number).tag == tag

def firstField? (tag : Tag) : List (Nat × Nat) →
    Build (Option (List (Nat × Nat) × (Nat × Nat) × List (Nat × Nat)))
  | [] => return none
  | field :: rest => do
    if ← hasTag tag field.1 then return some ([], field, rest)
    match ← firstField? tag rest with
    | some (before, found, after) => return some (field :: before, found, after)
    | none => return none

def wordOf : (fuel : Nat) → Nat → Build (List Char)
  | 0, _ => throw .illFormed
  | fuel + 1, number => do
    match (← node number).content with
    | .scalar word => return word
    | .list _ => throw .illFormed
    | .record fields =>
      match ← firstField? .equals fields with
      | some (_, (_, value), _) => wordOf fuel value
      | none => throw .illFormed

def plainKey (number : Nat) : Build Unit := do
  if ← hasTag .equals number then
    modify fun b => { b with nodes := b.nodes.modify number ({ · with tag := .text }) }

mutual

/-- Takes the records that are merged into a record into its fields, in front of its own. -/
def flatten : (fuel : Nat) → Nat → Build Unit
  | 0, _ => throw .illFormed
  | fuel + 1, number => do
    match ← firstField? .merge (← fieldsOf number) with
    | none => (← fieldsOf number).forM fun field => plainKey field.1
    | some (before, (_, value), after) =>
      -- each call removes a mark, so as many calls suffice as there are fields
      setFields number (before ++ after)
      let merged ← mergedFields fuel value
      flatten fuel number
      setFields number (merged ++ (← fieldsOf number))

/-- The fields that a node adds when it is merged: those of a record, or of the records of a list,
the first of which counts most. -/
def mergedFields : (fuel : Nat) → Nat → Build (List (Nat × Nat))
  | 0, _ => throw .illFormed
  | fuel + 1, number => do
    match (← node number).content with
    | .scalar _ => throw .illFormed
    | .record _ =>
      flatten fuel number
      fieldsOf number
    | .list items =>
      let parts ← items.mapM fun item => do
        let _ ← fieldsOf item
        flatten fuel item
        fieldsOf item
      return parts.reverse.flatten

end

/-- Begins what a node stands for, unless it has begun. -/
def start (fuel number : Nat) : Build Unit := do
  if (← get).shapes.getD number none |>.isSome then return
  let tag := (← node number).tag
  if tag.isCollection then
    shape number (.list [])
    -- a scalar is complete at once, a collection is filled in later
    modify fun b => { b with begun := number :: b.begun }
  else if tag == .moment then
    let word ← wordOf fuel number
    match (← node number).content with
    | .scalar _ => shape number (.scalar (← tag.scalarValue word))
    | _ => throw (.refused (.unfit .kind))
  else
    if tag == .merge || tag == .equals || tag == .other then throw .illFormed
    shape number (.scalar (← tag.scalarValue (← wordOf fuel number)))

def startKey (fuel number : Nat) : Build Unit := do
  start fuel number
  match (← get).shapes.getD number none with
  | some (.scalar _) => pure ()
  | _ => throw .illFormed

def startFields (fuel : Nat) (fields : List (Nat × Nat)) : Build Unit :=
  fields.forM fun (key, value) => do
    startKey fuel key
    start fuel value

def completeFields (fuel number : Nat) : Build (List (Nat × Nat)) := do
  let _ ← fieldsOf number
  flatten fuel number
  let fields ← fieldsOf number
  startFields fuel fields
  return fields

def onlyField (fuel number : Nat) : Build (Nat × Nat) := do
  match ← fieldsOf number with
  | [(key, value)] =>
    start fuel key
    start fuel value
    return (key, value)
  | _ => throw .illFormed

def complete (fuel number : Nat) : Build Unit := do
  match (← node number).tag with
  | .list =>
    let items ← itemsOf number
    items.forM (start fuel)
    shape number (.list items)
  | .record => shape number (.record (← completeFields fuel number))
  | .set => shape number (.set ((← completeFields fuel number).map Prod.fst))
  | .pairs =>
    let items ← itemsOf number
    shape number (.pairs (← items.mapM (onlyField fuel)))
  | _ => pure ()

/-- Fills in the collections that have begun, level by level; there are fewer levels than nodes. -/
def completeAll (fuel : Nat) : (levels : Nat) → Build Unit
  | 0 => pure ()
  | levels + 1 => do
    let begun := (← get).begun
    if begun.isEmpty then return
    modify fun b => { b with begun := [] }
    begun.reverse.forM (complete fuel)
    completeAll fuel levels

end Build

def Node.size (n : Node) : Nat :=
  match n.content with
  | .scalar _ => 1
  | .list items => 1 + items.length
  | .record fields => 1 + 2 * fields.length

def shapes (nodes : Array Node) (root : Nat) : Attempt (Array (Option Shape)) := do
  let fuel := nodes.foldl (fun size node => size + node.size) 1
  let work : Build Unit := do
    Build.start fuel root
    Build.completeAll fuel (nodes.size + 1)
  let (_, b) ← work.run ⟨nodes, Array.replicate nodes.size none, []⟩
  return b.shapes

end Reckon.Document
