import Reckon.Formula.Expr
import Reckon.Value.Reading
import Reckon.Value.Told

/-!
Evaluation of expressions.

Arithmetic is that of doubles: what is undefined gives an infinity or not a number and no failure.
A failure names something that has no meaning, and of several the one that comes first in the order
of evaluation. `Expr.eval` follows the tree; `Expr.evaluate` keeps its own stacks, so that a tree
may be as deep as it likes.
-/

set_option autoImplicit false

namespace Reckon

abbrev Environment := String → Option Value

namespace Expr

/-- The power, except that an exponent that is no number gives no number, and neither does one or
minus one to the power of an infinity. -/
def power (base exponent : Float) : Float :=
  if exponent.isNaN || (exponent.isInf && base.abs == 1) then Binary.nan
  else Float.pow base exponent

def roundHalfUp (x : Float) : Float :=
  let below := x.floor
  if 0.5 ≤ x - below then below + 1 else below

/-- The least of the numbers, the last one of equal ones; not a number if one is not, infinite if
there is none. -/
def least : List Float → Float
  | [] => Binary.infinity
  | x :: rest => rest.foldl (fun a b => if a < b || a.isNaN then a else b) x

/-- The greatest of the numbers, the last one of equal ones; not a number if one is not, minus
infinity if there is none. -/
def greatest : List Float → Float
  | [] => -Binary.infinity
  | x :: rest => rest.foldl (fun a b => if b < a || a.isNaN then a else b) x

def ofFirst (f : Float → Float) : List Float → Float
  | [] => Binary.nan
  | x :: _ => f x

def powerOf (args : List Float) : Float :=
  power (args.getD 0 Binary.nan) (args.getD 1 Binary.nan)

/-- The functions, by name; further arguments than a function takes are ignored. -/
def functions : List (String × (List Float → Float)) :=
  [("abs", ofFirst Float.abs), ("ceil", ofFirst Float.ceil), ("exp", ofFirst Float.exp),
   ("floor", ofFirst Float.floor), ("log", ofFirst Float.log), ("log10", ofFirst Float.log10),
   ("log2", ofFirst Float.log2), ("max", greatest), ("min", least), ("pow", powerOf),
   ("round", ofFirst roundHalfUp), ("sqrt", ofFirst Float.sqrt)]

def function? (name : String) : Option (List Float → Float) :=
  functions.lookup name

def operators : List (String × (Float → Float → Float)) :=
  [("+", (· + ·)), ("-", (· - ·)), ("*", (· * ·)), ("/", (· / ·)), ("**", power)]

def lookUp (env : Environment) (name : String) : Except Failure Float :=
  match env name with
  | some value => value.toVariable
  | none =>
    match constant? name with
    | some value => .ok value
    | none => .error (.undefined (.unknownVariable name))

def applyBinary (op : String) (left right : Float) : Except Failure Float :=
  match operators.lookup op with
  | some f => .ok (f left right)
  | none => .error (.undefined (.unknownOperator op))

def applyUnary (op : String) (operand : Float) : Except Failure Float :=
  if op = "-" then .ok (-operand) else .error (.undefined (.unknownOperator op))

def applyCall (name : String) (args : List Float) : Except Failure Float :=
  match function? name with
  | some f => .ok (f args)
  | none => .error (.undefined (.unknownFunction name))

mutual

/-- The value of an expression, by recursion on it. -/
def eval [Machine] (env : Environment) : Expr → Except Failure Float
  | num value => .ok value
  | var name => lookUp env name
  | binary op left right => do
    let a ← eval env left
    let b ← eval env right
    applyBinary op a b
  | unary op operand => do
    let a ← eval env operand
    applyUnary op a
  | call name args =>
    -- a function is looked up before its arguments are evaluated, an operator after its operands
    if (function? name).isSome then do
      let values ← evalArgs env args
      applyCall name values
    else .error (.undefined (.unknownFunction name))
  | foreign value => .error (value.naming (.unfit (.notExpression value)))

def evalArgs [Machine] (env : Environment) : List Expr → Except Failure (List Float)
  | [] => .ok []
  | e :: rest => do
    let value ← eval env e
    let values ← evalArgs env rest
    return value :: values

end

inductive Task where
  | visit (e : Expr)
  | binary (op : String)
  | unary (op : String)
  | call (name : String) (count : Nat)

/-- One task: what it adds to the work, and the values after it, the latest one first. -/
def Task.run [Machine] (env : Environment) (values : List Float) :
    Task → Except Failure (List Task × List Float)
  | .visit (.num value) => .ok ([], value :: values)
  | .visit (.var name) =>
    match lookUp env name with
    | .ok value => .ok ([], value :: values)
    | .error failure => .error failure
  | .visit (.foreign value) => .error (value.naming (.unfit (.notExpression value)))
  | .visit (.binary op left right) => .ok ([.visit left, .visit right, .binary op], values)
  | .visit (.unary op operand) => .ok ([.visit operand, .unary op], values)
  | .visit (.call name args) =>
    if (function? name).isSome then .ok (args.map .visit ++ [.call name args.length], values)
    else .error (.undefined (.unknownFunction name))
  | .binary op =>
    match values with
    | right :: left :: values =>
      match applyBinary op left right with
      | .ok value => .ok ([], value :: values)
      | .error failure => .error failure
    | _ => .error .outOfRange
  | .unary op =>
    match values with
    | operand :: values =>
      match applyUnary op operand with
      | .ok value => .ok ([], value :: values)
      | .error failure => .error failure
    | _ => .error .outOfRange
  | .call name count =>
    if count ≤ values.length then
      match applyCall name (values.take count).reverse with
      | .ok value => .ok ([], value :: values.drop count)
      | .error failure => .error failure
    else .error .outOfRange

/-- Does the tasks in order, up to `fuel` of them; the result is the only value left. -/
def runTasks [Machine] (env : Environment) :
    (fuel : Nat) → List Task → List Float → Except Failure Float
  | _, [], [value] => .ok value
  | _, [], _ => .error .outOfRange
  | 0, _ :: _, _ => .error .outOfRange
  | fuel + 1, task :: tasks, values =>
    match task.run env values with
    | .ok (added, values) => runTasks env fuel (added ++ tasks) values
    | .error failure => .error failure

/-- The value of an expression, by a list of tasks and a stack of values. -/
def evaluate [Machine] (env : Environment) (e : Expr) : Except Failure Float :=
  -- a node takes at most two tasks
  runTasks env (2 * e.size) [.visit e] []

end Expr

end Reckon
