import Reckon.Proofs.Formula.References

/-!
Calls of functions, and when the evaluation of a parsed expression fails.

The parser makes no operator that the language does not have, so an expression whose variables all
have numbers can only fail for the name of a function. Main statement: it fails for the first name,
read from left to right, that no function has, and has a value if there is no such name.
-/

set_option autoImplicit false

namespace Reckon.Expr

/-! ## Calls -/

mutual

/-- The names of the functions that are called, once for each call, from left to right. A call
stands before those among its arguments. -/
def calls : Expr → List String
  | num _ | var _ | foreign _ => []
  | binary _ left right => calls left ++ calls right
  | unary _ operand => calls operand
  | call name args => name :: callsIn args

def callsIn : List Expr → List String
  | [] => []
  | e :: rest => calls e ++ callsIn rest

end

def isUnknown (name : String) : Bool :=
  (function? name).isNone

/-! ## Answers -/

/-- What comes of an evaluation whose calls have at most one name to be refused for. -/
inductive Answers {α : Type} : Option String → Except Failure α → Prop where
  | value (x : α) : Answers none (.ok x)
  | unknown (name : String) : Answers (some name) (.error (.undefined (.unknownFunction name)))

theorem answers_none_iff {α : Type} {result : Except Failure α} :
    Answers none result ↔ ∃ x, result = .ok x := by
  constructor
  · rintro ⟨x⟩
    exact ⟨x, rfl⟩
  · rintro ⟨x, rfl⟩
    exact .value x

theorem answers_some_iff {α : Type} {result : Except Failure α} {name : String} :
    Answers (some name) result ↔ result = .error (.undefined (.unknownFunction name)) := by
  constructor
  · rintro ⟨⟩
    rfl
  · rintro rfl
    exact .unknown name

/-- Some names have numbers, and no name has anything else. -/
structure Supplies (env : Environment) (names : List String) : Prop where
  numbers : ∀ name value, env name = some value → ∃ x, value = .real x
  covered : ∀ name ∈ names, ∃ value, env name = some value

/-! ## Calls among the references -/

def Reference.called? : Reference → Option String
  | functionOf name => some name
  | variableOf _ => none

mutual

theorem calls_eq (e : Expr) : e.calls = e.references.filterMap Reference.called? :=
  match e with
  | .num _ | .var _ | .foreign _ => rfl
  | .binary _ left right => by
    simp only [calls, references, List.filterMap_append, calls_eq left, calls_eq right]
  | .unary _ operand => calls_eq operand
  | .call _ args => by simp [calls, references, Reference.called?, callsIn_eq args]

theorem callsIn_eq (args : List Expr) :
    callsIn args = (referencesIn args).filterMap Reference.called? :=
  match args with
  | [] => rfl
  | e :: rest => by
    simp only [callsIn, referencesIn, List.filterMap_append, calls_eq e, callsIn_eq rest]

end

theorem fault?_of_supplies {env : Environment} {name : String}
    (supplies : Supplies env (Reference.variableOf name).occurrence?.toList) :
    Reference.fault? env (.variableOf name) = none := by
  cases bound : env name with
  | some value =>
    obtain ⟨x, rfl⟩ := supplies.numbers name value bound
    rw [Reference.fault?_of_some bound]
    rfl
  | none =>
    rw [Reference.fault?_of_none bound]
    by_cases isConstant : (constant? name).isSome = true
    · rw [if_pos isConstant]
    · have occurs : name ∈ (Reference.variableOf name).occurrence?.toList := by
        simp [Reference.occurrence?, isConstant]
      obtain ⟨value, isBound⟩ := supplies.covered name occurs
      rw [bound] at isBound
      cases isBound

theorem findSome?_fault_of_supplies {env : Environment} {rs : List Reference}
    (supplies : Supplies env (rs.filterMap Reference.occurrence?)) :
    rs.findSome? (Reference.fault? env) =
      ((rs.filterMap Reference.called?).find? isUnknown).map fun name =>
        .undefined (.unknownFunction name) := by
  induction rs with
  | nil => rfl
  | cons r rs ih =>
    have member {name : String} : name ∈ r.occurrence?.toList ∨
        name ∈ rs.filterMap Reference.occurrence? →
        name ∈ (r :: rs).filterMap Reference.occurrence? := by
      cases isVariable : r.occurrence? <;> simp [isVariable]
    have first : Supplies env r.occurrence?.toList :=
      ⟨supplies.numbers, fun name occurs => supplies.covered name (member (.inl occurs))⟩
    have rest :=
      ih ⟨supplies.numbers, fun name occurs => supplies.covered name (member (.inr occurs))⟩
    rw [List.findSome?_cons, rest]
    cases r with
    | variableOf name => rw [fault?_of_supplies first]; rfl
    | functionOf name =>
      rw [Reference.fault?_functionOf]
      cases isName : function? name <;> simp [Reference.called?, isUnknown, isName]

/-- Wherever its variables have numbers, a parsed expression fails for its first unknown call
alone. -/
theorem answers_of_parse [Machine] {s : String} {e : Expr} (parsed : Formula.parse s = .ok e)
    {env : Environment} (supplies : Supplies env e.occurrences) :
    Answers (e.calls.find? isUnknown) (eval env e) := by
  have numbers (name : String) (value : Value) (bound : env name = some value) :
      value.IsNumber := by
    obtain ⟨x, rfl⟩ := supplies.numbers name value bound
    trivial
  have settles := settles_of_parse parsed numbers
  rw [occurrences_eq] at supplies
  rw [findSome?_fault_of_supplies supplies, ← calls_eq] at settles
  generalize e.calls.find? isUnknown = unknown at settles
  cases unknown with
  | none => exact answers_none_iff.mpr (settles.exists_ok_iff.mpr rfl)
  | some name => exact answers_some_iff.mpr (settles.eq_error_iff.mpr rfl)

end Reckon.Expr
