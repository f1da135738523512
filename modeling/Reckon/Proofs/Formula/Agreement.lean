import Mathlib.Logic.Function.Basic
import Reckon.Proofs.Formula.Evaluation

/-!
What an evaluation depends on.

Two environments that agree on the variables of an expression and on the constants, in what they
bind and in what they leave open, give it the same value or the same failure. No other name matters.
-/

set_option autoImplicit false

namespace Reckon.Expr

/-- Two environments have the same entry, or none, for some names and for each constant. -/
structure Agree (env env' : Environment) (names : List String) : Prop where
  names : ∀ name ∈ names, env name = env' name
  constants : ∀ name ∈ constants.map Prod.fst, env name = env' name

namespace Agree

variable {env env' : Environment} {names names' : List String}

theorem left (agree : Agree env env' (names ++ names')) : Agree env env' names where
  names name member := agree.names name (List.mem_append_left _ member)
  constants := agree.constants

theorem right (agree : Agree env env' (names ++ names')) : Agree env env' names' where
  names name member := agree.names name (List.mem_append_right _ member)
  constants := agree.constants

/-- A name that is no constant occurs as a variable, and a constant may be hidden by an entry. -/
theorem lookUp {name : String} (agree : Agree env env' (occurrences (.var name))) :
    lookUp env name = lookUp env' name := by
  have same : env name = env' name := by
    by_cases isConstant : (constant? name).isSome = true
    · obtain ⟨entry, isEntry, named⟩ := List.lookup_isSome_iff.mp isConstant
      refine agree.constants name (List.mem_map.mpr ⟨entry, isEntry, ?_⟩)
      exact (beq_iff_eq.mp named).symm
    · exact agree.names name (by simp [occurrences, isConstant])
  simp only [Expr.lookUp, same]

end Agree

variable {env env' : Environment}

mutual

theorem eval_agree [Machine] (e : Expr) (agree : Agree env env' e.occurrences) :
    eval env e = eval env' e :=
  match e with
  | .num _ | .foreign _ => rfl
  | .var _ => agree.lookUp
  | .unary op operand => by
    simp only [eval, eval_agree operand agree]
  | .binary op left right => by
    simp only [eval, eval_agree left agree.left, eval_agree right agree.right]
  | .call name args => by
    simp only [eval, evalArgs_agree args agree]

theorem evalArgs_agree [Machine] (args : List Expr) (agree : Agree env env' (occurrencesIn args)) :
    evalArgs env args = evalArgs env' args :=
  match args with
  | [] => rfl
  | e :: rest => by
    simp only [evalArgs, eval_agree e agree.left, evalArgs_agree rest agree.right]

end

/-- The variables of an expression and the constants decide its value and its failure, whatever the
expression is made of; an entry under another name, a new one or none in its place changes neither. -/
theorem evaluate_agree [Machine] (e : Expr) :
    (∀ env env', Agree env env' e.variableNames → evaluate env e = evaluate env' e) ∧
    (∀ env name value, name ∉ e.variableNames → name ∉ constants.map Prod.fst →
      evaluate (Function.update env name value) e = evaluate env e) := by
  have depends (env env' : Environment) (agree : Agree env env' e.variableNames) :
      evaluate env e = evaluate env' e := by
    rw [evaluate_eq_eval, evaluate_eq_eval]
    exact eval_agree e {
      names := fun name occurs => agree.names name (List.mem_eraseDups.mpr occurs)
      constants := agree.constants }
  refine ⟨depends, fun env name value other notConstant => depends _ _ ?_⟩
  constructor
  · rintro listedName listed
    have differs : listedName ≠ name := by
      rintro rfl
      exact other listed
    exact Function.update_of_ne differs _ _
  · rintro constantName listed
    have differs : constantName ≠ name := by
      rintro rfl
      exact notConstant listed
    exact Function.update_of_ne differs _ _

/-- A tree that no text writes: an operator that does not exist, between a constant and a call with
something foreign in it. -/
def oddTree : Expr :=
  .binary "%" (.var "pi") (.call "max" [.var "x", .foreign .null])

/-- An entry for the variable of the tree, and one that hides its constant. -/
def shadowing : Environment :=
  fun name => if name = "x" then some (.int 1) else if name = "pi" then some (.int 3) else none

section

attribute [local instance] Machine.standard

theorem evaluate_agree_oddTree :
    Agree shadowing (Function.update shadowing "y" (some .null)) oddTree.variableNames ∧
      evaluate shadowing oddTree = evaluate (Function.update shadowing "y" (some .null)) oddTree ∧
      "y" ∉ oddTree.variableNames ∧ "y" ∉ constants.map Prod.fst ∧
      evaluate (Function.update shadowing "y" none) oddTree = evaluate shadowing oddTree := by
  have names : oddTree.variableNames = ["x"] := by decide +kernel
  have agree :
      Agree shadowing (Function.update shadowing "y" (some .null)) oddTree.variableNames := by
    rw [names]
    constructor <;> simp [constants]
  have absent : "y" ∉ oddTree.variableNames := by simp [names]
  have ordinary : "y" ∉ constants.map Prod.fst := by simp [constants]
  obtain ⟨depends, ignores⟩ := evaluate_agree oddTree
  exact ⟨agree, depends _ _ agree, absent, ordinary, ignores _ "y" none absent ordinary⟩

end

end Reckon.Expr
