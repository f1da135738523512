import Reckon.Model.Basic
import Reckon.Random.Seed

/-!
Estimates: a model with the settings of its simulation, and the last result.

An estimate is described by a record and read from one. The parts of a record take effect one after
the other, so a record that is refused half way leaves its first parts behind.
-/

set_option autoImplicit false

namespace Reckon

/-- A model to simulate. The settings are kept as they were given and read when they are used. -/
structure Estimate where
  model : Model
  name : Value
  samples : Value
  seed : Value
  description : Value
  result : Option Summary
  deriving Inhabited

namespace Estimate

def usualName : Value := .text "estimate"

def ofModel (model : Model) (name : Value) : Estimate :=
  { model, name, samples := .int Simulation.standardTrials, seed := .null, description := .text ""
    result := none }

def usualFormula : Value := .text "f = x"

def initial [Machine] : Outcome Estimate := do
  let model ← Model.ofFormula usualFormula
  return ofModel model usualName

/-- The record that describes an estimate. A seed is part of it if there is one, and so is a
description that is not empty. -/
def config (e : Estimate) : Except Failure Entries := do
  let described ← e.description.truth
  let seed := match e.seed with
    | .null => []
    | seed => [("seed", seed)]
  let fields :=
    [("mode", .text "estimate"), ("name", e.name), ("function", .text e.model.name),
      ("formula", .text e.model.formula), ("samples", e.samples)] ++ seed
      ++ (if described then [("description", e.description)] else [])
      ++ [("inputs", .list (e.model.bindings.config.map .record))]
  return fields.map fun (key, value) => (.text key, value)

def withFormula (config : Value) : Except Failure (Entries × Value) :=
  match config.bare with
  | .record entries =>
    match Entries.get? entries "formula" with
    | some formula => .ok (entries, formula)
    | none => .error (.unsuitable .noFormula)
  | .text s =>
    if (Text.replace "formula" "" s) = s then .error (.unsuitable .noFormula)
    else .error .noSuchPart
  | .list items | .tuple items | .set items =>
    if items.any (·.same (.text "formula")) then .error .noSuchPart
    else .error (.unsuitable .noFormula)
  | _ => .error (.unfit .kind)

/-- The input that a record describes: a variable of the formula and its distribution. -/
def loadInput [Machine] (item : Value) : Change Model Unit := do
  let record ← item.toRecord
  let model ← Change.current
  let name := (record.get? "name").getD .null
  if !name.isName then throw (.unfit .kind)
  match name with
  | .text known =>
    if (model.bindings.find? known).isNone then
      throw (name.naming (.unsuitable (.strayInput name model.formula)))
    let d ← Distribution.ofRecord (record.without "name")
    Model.assign known (.distribution d)
  | _ => throw (name.naming (.unsuitable (.strayInput name model.formula)))

def onModel {α : Type} (change : Change Model α) : Change Estimate α :=
  Change.within Estimate.model (fun model e => { e with model }) change

def load [Machine] (config : Value) : Change Estimate Unit := do
  let (record, formula) ← withFormula config
  let given := fun key usual => (record.get? key).getD usual
  let function ← (given "function" (.text "f")).told
  let body ← formula.told
  let model ← Model.ofFormula (.text (function ++ " = " ++ body))
  Change.update fun e => { e with model }
  Change.update fun e => { e with name := given "name" usualName }
  let samples ← (given "samples" (.int Simulation.standardTrials)).toWhole
  Change.update fun e => { e with samples := .int samples }
  Change.update fun e => { e with seed := given "seed" .null }
  Change.update fun e => { e with description := given "description" (.text "") }
  Change.update fun e => { e with result := none }
  let items ← (given "inputs" (.list [])).items
  items.forM fun item => onModel (loadInput item)

def ofConfig [Machine] (config : Value) : Outcome Estimate := do
  let e ← initial
  Change.from? e (load config)

def calculate [Machine] : Change Estimate Summary := do
  let e ← Change.current
  let source ← Random.Source.ofSeed e.seed
  let (summary, _) ← e.model.simulate e.samples source
  Change.update fun e => { e with result := some summary }
  return summary

def summary [Machine] : Change Estimate Summary := do
  let e ← Change.current
  match e.result with
  | some summary => return summary
  | none => calculate

def sampleText (x : Float) : String :=
  match Binary.special? x with
  | some name => name
  | none =>
    let size := Decimal.scientific 'e' 9 (Binary.toRat x).abs
    String.ofList (if Binary.isNegative x then '-' :: size else size)

def samplesText (e : Estimate) (s : Summary) : String :=
  let header := "# " ++ Text.replace "\n" "\n# " e.model.name ++ "\n"
  header ++ String.join (s.samples.map fun x => sampleText x ++ "\n")

end Estimate

end Reckon
