import Reckon.Document.Shape

/-!
Reading documents: the value of a text.

A later field of a record replaces an earlier one under the same key. A node that is used in several
places becomes a value with a label. A value that contains itself is unfolded a few times.
-/

set_option autoImplicit false

namespace Reckon.Document

namespace Shape

def parts : Shape → List Nat
  | scalar _ => []
  | list items | set items => items
  | pairs items | record items => items.flatMap fun (key, value) => [key, value]

/-- Whether the places of a value of the shape can be told from those of an equal value. -/
def hasIdentity : Shape → Bool
  | scalar (.date ..) | scalar (.moment _) => true
  | scalar _ => false
  | _ => true

end Shape

def usesOf (shapes : Array (Option Shape)) : Array Nat :=
  shapes.foldl (fun uses shape =>
    match shape with
    | some shape => shape.parts.foldl (fun uses part => uses.modify part (· + 1)) uses
    | none => uses) (Array.replicate shapes.size 0)

/-- The shapes with how often they are used, the values known so far, and the values that stand for
those that are not complete. -/
structure Unfolding where
  shapes : Array (Option Shape)
  uses : Array Nat
  before : Array Value
  known : Array (Option Value)

abbrev Unfold := StateM Unfolding

namespace Unfold

def know (number : Nat) (value : Value) : Unfold Unit :=
  modify fun s => { s with known := s.known.setIfInBounds number (some value) }

mutual

def valueOf : (fuel : Nat) → Nat → Unfold Value
  | 0, _ => return .null
  | fuel + 1, number => do
    let s ← get
    match s.known.getD number none with
    | some value => return value
    | none =>
      let shape := (s.shapes.getD number none).getD default
      -- while a value is not complete, the one in the unfolding before stands for it
      know number (s.before.getD number .null)
      let value ← shapeValue fuel shape
      let value :=
        if shape.hasIdentity && 1 < s.uses.getD number 0 then .shared number value else value
      know number value
      return value

def shapeValue : (fuel : Nat) → Shape → Unfold Value
  | 0, _ => return .null
  | fuel + 1, shape => do
    match shape with
    | .scalar value => return value
    | .list items => return .list (← items.mapM (valueOf fuel))
    | .set items =>
      let names ← items.mapM (valueOf fuel)
      return .set ((Entries.ofPairs (names.map fun name => (name, .null))).map Prod.fst)
    | .pairs items => return .list (← items.mapM fun field => do
        let (key, value) ← fieldValue fuel field
        return .tuple [key, value])
    | .record fields => return .record (Entries.ofPairs (← fields.mapM (fieldValue fuel)))

def fieldValue : (fuel : Nat) → Nat × Nat → Unfold (Value × Value)
  | 0, _ => return (.null, .null)
  | fuel + 1, (key, value) => do
    let name ← valueOf fuel key
    let item ← valueOf fuel value
    return (name, item)

end

def round (root : Nat) (s : Unfolding) : Unfolding :=
  let blank := { s with known := s.known.map fun _ => none }
  let (_, s) := (valueOf (3 * s.shapes.size + 3) root).run blank
  { s with before := s.known.map (·.getD .null) }

end Unfold

def unfoldings : Nat := 3

def rootValue (shapes : Array (Option Shape)) (root : Nat) : Value :=
  let size := shapes.size
  let start : Unfolding :=
    ⟨shapes, (usesOf shapes).modify root (· + 1), Array.replicate size .null,
      Array.replicate size none⟩
  (Nat.repeat (Unfold.round root) unfoldings start).before.getD root .null

/-- The value of a text with at most one document, null if there is no document. -/
def value (cs : List Char) : Attempt Value := do
  match ← nodes cs with
  | (_, none) => return .null
  | (nodes, some root) => return rootValue (← shapes nodes root) root

/-- The value of a text with at most one document: null if there is no document, and nothing at
all if the text is not well-formed. -/
def read (s : String) : Except Failure (Option Value) :=
  match value s.toList with
  | .ok value => .ok (some value)
  | .error .illFormed => .ok none
  | .error (.refused failure) => .error failure

def readBytes (bytes : ByteArray) : Except Failure (Option Value) :=
  match String.fromUTF8? bytes with
  | some s => read s
  | none => .ok none

end Reckon.Document
