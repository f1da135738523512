import Reckon.Distribution.Basic
import Reckon.Outcome
import Reckon.Value.Reading
import Reckon.Value.Told

/-!
Distributions read from records.

A record names the kind under `type` and gives parameters of that kind; a parameter that is not
given has its usual value. The rate of a Poisson distribution has two names.
-/

set_option autoImplicit false

namespace Reckon.Distribution

def shortName (parameter : String) : String :=
  if parameter = "lambda" then "lam" else parameter

def listedName (parameter : String) : String :=
  if parameter = "lam" then "lambda" else parameter

/-- The name of a parameter in a record, which must be a text and not one that is kept for the
kind itself. -/
def parameterName : Value → Except Failure String
  | .text "name" => .error (.unfit .reservedName)
  | .text parameter => .ok parameter
  | _ => .error (.unfit .kind)

/-- The parameters of a record under their short names, a later one replacing an earlier one. -/
def named (record : Entries) : Except Failure (List (String × Value)) :=
  record.mapM fun (key, value) => do
    let parameter ← parameterName key
    return (parameter, value)

def kindOf [Machine] (value : Value) : Except Failure Kind :=
  if !value.isName then .error (.unfit .kind)
  else
    let unknown := .error (value.naming (.unsuitable (.distributionKind value.toText)))
    match value with
    | .text name =>
      match Kind.ofName? name with
      | some kind => .ok kind
      | none => unknown
    | _ => unknown

def hasParameter (kind : Kind) (parameter : String) : Bool :=
  (kind.parameters.map shortName).contains parameter

/-- Changes the parameters one after the other to the numbers that the values write. -/
def update : Distribution → List (String × Value) → Except Failure Distribution
  | d, [] => .ok d
  | d, (parameter, value) :: rest =>
    match value.toReal with
    | .ok x => update (d.set (listedName parameter) x) rest
    | .error failure => .error failure

def ofParameters [Machine] (kind : Kind) (parameters : List (String × Value)) :
    Except Failure Distribution :=
  let short := Entries.ofPairs (parameters.map fun (name, value) => (.text (shortName name), value))
  let pairs := short.map fun (key, value) => (key.toText, value)
  match pairs.find? fun (parameter, _) => !hasParameter kind parameter with
  | some (parameter, _) => .error (.unsuitable (.parameterName parameter kind.name))
  | none =>
    match update (ofKind kind) pairs with
    | .ok d => .ok d
    | .error .overflow => .error .overflow
    | .error _ =>
      .error ((Value.record short).naming (.unsuitable (.parameterValues kind.name short)))

def checkPercentiles : Distribution → Outcome Unit
  | lognormal low high =>
    if low.toFloat ≤ 0 || high.toFloat ≤ 0 then
      .note (.nonPositivePercentile (lognormal low high).describe)
    else pure ()
  | _ => pure ()

def make [Machine] (kind : Value) (parameters : Entries) : Outcome Distribution := do
  let parameters ← named parameters
  let kind ← kindOf kind
  let d ← ofParameters kind parameters
  checkPercentiles d
  return d

def ofRecord [Machine] (record : Entries) : Outcome Distribution :=
  make ((record.get? "type").getD (.text "uniform")) (record.without "type")

def ofConfig [Machine] (value : Value) : Outcome Distribution := do
  let record ← value.toRecord
  ofRecord record

end Reckon.Distribution
