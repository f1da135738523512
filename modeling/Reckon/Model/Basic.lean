import Reckon.Change
import Reckon.Formula.Parser
import Reckon.Model.Bindings
import Reckon.Simulation.Run
import Reckon.Text.Blank

/-!
Models: a named formula with a distribution for each of its variables.

A new formula keeps the distributions of the variables that stay and gives the usual one to those
that are new. Whatever is refused leaves the model as it was.
-/

set_option autoImplicit false

namespace Reckon

/-- A named formula, the expression it writes, and the distributions of its variables. -/
structure Model where
  name : String
  formula : String
  expr : Expr
  bindings : Bindings
  deriving Inhabited

namespace Model

def blank : Model := ⟨"f", "", .num 0, []⟩

/-- The name before the first equals sign of a text and the formula after it. -/
def splitName (name : String) (formula : Value) : String × Value :=
  match formula with
  | .text s =>
    match Text.cut? '=' s.toList with
    | some (before, after) => (String.ofList (Text.trimChars before), .text (String.ofList after))
    -- without a name of its own a formula keeps the one given
    | none => (name, formula)
  | formula => (name, formula)

def setFormula [Machine] (formula : Value) : Change Model Unit := do
  let model ← Change.current
  let (name, body) := splitName model.name formula
  let expr ← Formula.parseValue body
  let names := expr.variableNames
  let added := model.bindings.added names
  let removed := model.bindings.removed names
  Change.update fun model =>
    { name, formula := Text.trim body.toText, expr, bindings := model.bindings.refreshed names }
  if !(added.isEmpty && removed.isEmpty) then
    Outcome.note (.variablesChanged added removed)

def ofFormula [Machine] (formula : Value) : Outcome Model :=
  Change.from? blank (setFormula formula)

inductive Assignment where
  /-- Other values for some parameters of the distribution it has. -/
  | parameters (given : Entries)
  | kind (name : String) (given : Entries)
  | value (described : Value)
  | distribution (d : Distribution)

/-- The assignment that a value and parameters make: a text names a kind, and without a value the
parameters change the distribution that is there. -/
def Assignment.ofValue (value : Value) (parameters : Entries) : Assignment :=
  match value with
  | .null => .parameters parameters
  | .text name => .kind name parameters
  | value => .value value

def Assignment.resolve [Machine] (current : Distribution) : Assignment → Outcome Distribution
  | parameters given => Distribution.ofRecord (current.config.merge given)
  | kind name given => Distribution.make (.text name) given
  | value described => Bindings.asDistribution described
  | distribution d => pure d

def assign [Machine] (name : String) (assignment : Assignment) : Change Model Unit := do
  let model ← Change.current
  match model.bindings.find? name with
  | none => throw (.absent (.inFormula name model.formula))
  | some current =>
    let d ← assignment.resolve current
    Change.update fun model => { model with bindings := model.bindings.set name d }

/-- How an assignment calls the model, the variable and what the variable is assigned. -/
def keptNames : List String := ["self", "name", "dist"]

/-- Assigns what a value and parameters describe. The variable and the value have their places, so
that no parameter may be called like them. -/
def assignNamed [Machine] (name : String) (value : Value) (parameters : Entries) :
    Change Model Unit := do
  if keptNames.any fun kept => (parameters.get? kept).isSome then throw (.unfit .reservedName)
  assign name (.ofValue value parameters)

inductive Argument where
  | value (value : Value)
  | distribution (d : Distribution)

/-- The assignment that an argument and parameters make; a distribution takes no parameters. -/
def Argument.assignment (argument : Argument) (parameters : Entries) : Assignment :=
  match argument with
  | value v => .ofValue v parameters
  | distribution d => .distribution d

/-- The arguments of an assignment. The variable and what it is assigned are given by their places
or under their names, and parameters under other names. -/
structure Arguments where
  placed : Option (String × Option Argument)
  name : Option String
  dist : Option Argument
  parameters : Entries
  own : parameters.get? "name" = none ∧ parameters.get? "dist" = none

def Arguments.bound (given : Arguments) : Except Failure (String × Option Argument) :=
  if (given.parameters.get? "self").isSome then .error (.unfit .reservedName)
  else
    match given.placed, given.name, given.dist with
    | some (name, dist), none, none => .ok (name, dist)
    | some (name, none), none, some dist => .ok (name, some dist)
    | none, some name, dist => .ok (name, dist)
    | _, _, _ => .error (.unfit .reservedName)

def assignWith [Machine] (given : Arguments) : Change Model Unit := do
  let (name, argument) ← given.bound
  assign name ((argument.getD (.value .null)).assignment given.parameters)

def eval [Machine] (m : Model) (env : Environment) : Except Failure Float :=
  m.expr.evaluate env

def simulate [Machine] (m : Model) (trials : Value) (s : Random.Source) :
    Outcome (Summary × Random.Source) :=
  Simulation.simulate m.expr m.bindings trials s

def describe (m : Model) : String :=
  "<FermiModel " ++ m.name ++ " = " ++ m.formula ++ ">"

end Model

end Reckon
