import Reckon.Value.Basic

/-!
Expressions of the formula language, and the variables that occur in them.
-/

set_option autoImplicit false

namespace Reckon

/-- An arithmetic expression. Trees built by hand may name operators and functions that do not
exist, or hold a value that is no expression. -/
inductive Expr where
  | num (value : Float)
  | var (name : String)
  | binary (op : String) (left right : Expr)
  | unary (op : String) (operand : Expr)
  | call (name : String) (args : List Expr)
  | foreign (value : Value)
  deriving Inhabited

namespace Expr

def euler : Float := 2.718281828459045

def constants : List (String × Float) :=
  [("pi", Binary.pi), ("PI", Binary.pi), ("e", euler), ("E", euler)]

def constant? (name : String) : Option Float :=
  constants.lookup name

mutual

/-- The names of the variables, once for each occurrence, from left to right; constants are not
variables. -/
def occurrences : Expr → List String
  | num _ | foreign _ => []
  | var name => if (constant? name).isSome then [] else [name]
  | binary _ left right => occurrences left ++ occurrences right
  | unary _ operand => occurrences operand
  | call _ args => occurrencesIn args

def occurrencesIn : List Expr → List String
  | [] => []
  | e :: rest => occurrences e ++ occurrencesIn rest

end

def variableNames (e : Expr) : List String :=
  e.occurrences.eraseDups

mutual

def size : Expr → Nat
  | num _ | var _ | foreign _ => 1
  | binary _ left right => size left + size right + 1
  | unary _ operand => size operand + 1
  | call _ args => sizeOf args + 1

def sizeOf : List Expr → Nat
  | [] => 0
  | e :: rest => size e + sizeOf rest

end

end Expr

end Reckon
