import Reckon.Document.Writer
import Reckon.Project.Estimate
import Reckon.Report.Estimate

/-!
Projects: estimates in a list, each with a name.

An item of a project need not be an estimate; then it has a name and a description, and nothing to
calculate.
-/

set_option autoImplicit false

namespace Reckon

inductive Item where
  | plain (name description : Value)
  | estimate (estimate : Estimate)
  deriving Inhabited

namespace Item

def blank : Item := plain .null (.text "")

def name : Item → Value
  | plain name _ => name
  | estimate e => e.name

def rename (name : Value) : Item → Item
  | plain _ description => plain name description
  | estimate e => estimate { e with name }

def config : Item → Except Failure Entries
  | plain name description => .ok [(.text "name", name), (.text "description", description)]
  | estimate e => e.config

def document (item : Item) : Except Failure String := do
  return Document.ofList [.record (← item.config)]

def mode : Item → Except Failure String
  | plain .. => .error (.unsuitable .itemMode)
  | estimate _ => .ok "estimate"

def onEstimate {α : Type} (change : Change Estimate α) : Change Item α := fun item =>
  match item with
  | estimate e =>
    let (outcome, e) := change e
    (outcome, estimate e)
  | plain .. => (.fail .noSuchPart, item)

def load [Machine] (config : Value) : Change Item Unit := fun item =>
  match item with
  | estimate _ => onEstimate (Estimate.load config) item
  | plain .. => (pure (), item)

def another [Machine] (item : Item) (config : Value) : Outcome Item :=
  match item with
  | estimate _ => do
    let e ← Estimate.ofConfig config
    return .estimate e
  | plain .. => pure blank

/-- The item of the same kind as this one that a document describes: a record, or the first one of a
list. -/
def ofDocument [Machine] (item : Item) (document : Option Value) : Outcome (Option Item) :=
  match document.map Value.bare with
  | none | some .null => pure none
  | some (.list []) => .fail .outOfRange
  | some (.list (config :: _)) | some config => do
    let other ← item.another config
    return some other

def calculate [Machine] : Change Item Unit := fun item =>
  match item with
  | estimate e =>
    let (outcome, e) := Estimate.calculate e
    (⟨outcome.events, outcome.result.map fun _ => ()⟩, estimate e)
  | plain .. => (pure (), item)

end Item

abbrev Project := List Item

namespace Project

def names (p : Project) : List Value :=
  p.map Item.name

/-- The place of an index that counts from the front, or from the back if negative. -/
def place? (p : Project) (index : Int) : Option Nat :=
  let place := if index < 0 then index + p.length else index
  if 0 ≤ place ∧ place < p.length then some place.toNat else none

def placeOf (p : Project) (index : Value) : Except Failure Nat :=
  let found := fun n : Int =>
    match p.place? n with
    | some place => .ok place
    | none => .error .outOfRange
  match index with
  | .int n => found n
  | .bool b => found (if b then 1 else 0)
  | _ => .error (.unfit .kind)

def get (p : Project) (index : Value) : Except Failure Item := do
  let place ← p.placeOf index
  match p[place]? with
  | some item => .ok item
  | none => .error .outOfRange

def add (item : Item) : Change Project Unit :=
  Change.update fun p => p ++ [item]

def remove [Machine] (item : Value) : Change Project Unit := do
  let p ← Change.current
  if let .int n := item then
    if !Binary.isCounter n then throw .overflow
  let place ← match p.placeOf item with
    | .error (.unfit .kind) =>
      match p.names.findIdx? (·.same item) with
      | some place => pure place
      | none => throw (item.naming (.unsuitable (.notListed item)))
    | .error failure => throw failure
    | .ok place => pure place
  Change.update fun p => p.eraseIdx place

def rename (index name : Value) : Change Project Unit := do
  let p ← Change.current
  let place ← p.placeOf index
  Change.update fun p => p.modify place (Item.rename name)

/-- A change of each item in turn, as long as none fails, that takes a value along. -/
def forItems {α : Type} (change : α → Change Item α) (a : α) : Change Project α := fun p =>
  match p with
  | [] => (pure a, [])
  | item :: rest =>
    match change a item with
    | (⟨events, .ok a⟩, item) =>
      let (outcome, rest) := forItems change a rest
      (⟨events ++ outcome.events, outcome.result⟩, item :: rest)
    | (⟨events, .error failure⟩, item) => (⟨events, .error failure⟩, item :: rest)

def calculate [Machine] : Change Project Unit :=
  forItems (fun _ => Item.calculate) ()

/-- Adds to a report what there is to say about an item: its name and formula, its inputs if they
are asked for, and what the summary gives. -/
def reportItem [Machine] (inputs : Bool) (body : Summary → Except Failure Report) (r : Report) :
    Change Item Report := do
  let item ← Change.current
  let r := r.addHeader (← item.name.told) 1
  Item.onEstimate do
    let e ← Change.current
    let r := r.addText (e.model.name ++ " = " ++ e.model.formula ++ "\n\n")
    let lines := e.model.bindings.map fun (name, d) => "- " ++ name ++ ": " ++ d.describe ++ "\n"
    let r := if inputs then (r.addText (String.join lines)).addBreak else r
    let summary ← Estimate.summary
    let part ← body summary
    return (r.append part "").addDivider

def report [Machine] (inputs : Bool) (body : Summary → Except Failure Report) :
    Change Project Report :=
  forItems (reportItem inputs body) (Report.empty .empty)

def shortReport [Machine] : Change Project Report :=
  report false fun summary => summary.table .empty

def fullReport [Machine] : Change Project Report :=
  report true fun summary => summary.fullReport .empty

/-- The item that a record of a setup document describes; only records describe one. -/
def itemOf [Machine] (config : Value) : Option (Outcome Item) :=
  match config.bare with
  | .record entries =>
    let mode := (Entries.get? entries "mode").getD (.text "estimate")
    some (if mode.same (.text "estimate") then do
        let e ← Estimate.ofConfig config
        return .estimate e
      else .fail (mode.naming (.unsuitable (.projectMode mode))))
  | _ => none

def ofRecords [Machine] : List Value → Outcome (Option Project)
  | [] => pure (some [])
  | config :: rest =>
    match itemOf config with
    -- there is no project if an item is no record
    | none => pure none
    | some item => do
      let item ← item
      let others ← ofRecords rest
      return others.map (item :: ·)

/-- The project that a document describes: a list of records, or a single one. An empty document
describes none. -/
def ofDocument [Machine] (document : Option Value) : Outcome (Option Project) :=
  match document.map Value.bare with
  | none | some .null => pure none
  | some (.list items) => ofRecords items
  | some config => ofRecords [config]

def document (p : Project) : Except Failure String := do
  return String.join (← p.mapM Item.document)

end Project

end Reckon
