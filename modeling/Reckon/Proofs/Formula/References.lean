import Mathlib.Algebra.Group.Int.Defs
import Reckon.Proofs.Formula.Parsed

/-!
The names that an expression refers to, and which of them its evaluation fails for.

References are listed in the order in which an evaluation comes to them: a call stands before its
arguments, and operands stand from left to right. Main statement: a parsed expression over numbers
fails for its first reference at fault, and has a value if there is none.
-/

set_option autoImplicit false

namespace Reckon

/-- A number of any sort: a double, a whole number of any size, or a truth value. -/
def Value.IsNumber : Value → Prop
  | real _ | int _ | bool _ => True
  | _ => False

def Value.isBeyondDoubles : Value → Bool
  | int n => (Binary.ofInt? n).isNone
  | _ => false

namespace Expr

/-- A name that has its meaning from outside the expression. -/
inductive Reference where
  | variableOf (name : String)
  | functionOf (name : String)
  deriving DecidableEq, Repr

mutual

def references : Expr → List Reference
  | num _ | foreign _ => []
  | var name => [.variableOf name]
  | binary _ left right => references left ++ references right
  | unary _ operand => references operand
  | call name args => .functionOf name :: referencesIn args

def referencesIn : List Expr → List Reference
  | [] => []
  | e :: rest => references e ++ referencesIn rest

end

namespace Reference

/-- Nothing has this name, neither the environment nor the language. -/
def isMissing (env : Environment) : Reference → Bool
  | functionOf name => (function? name).isNone
  | variableOf name => (env name).isNone && (constant? name).isNone

/-- The environment has a number for the variable that no double is near to. -/
def isBeyond (env : Environment) : Reference → Bool
  | functionOf _ => false
  | variableOf name => (env name).any Value.isBeyondDoubles

def toUndefined : Reference → Undefined
  | functionOf name => .unknownFunction name
  | variableOf name => .unknownVariable name

/-- What an evaluation fails for when it comes to the reference. -/
def fault? (env : Environment) (r : Reference) : Option Failure :=
  if r.isMissing env then some (.undefined r.toUndefined)
  else if r.isBeyond env then some .overflow
  else none

section

variable {env : Environment} {name : String}

theorem fault?_functionOf (env : Environment) (name : String) :
    fault? env (.functionOf name) =
      if (function? name).isSome then none else some (.undefined (.unknownFunction name)) := by
  cases isName : function? name <;> simp [fault?, isMissing, isBeyond, isName, toUndefined]

theorem fault?_of_none (unbound : env name = none) :
    fault? env (.variableOf name) =
      if (constant? name).isSome then none else some (.undefined (.unknownVariable name)) := by
  cases isName : constant? name <;>
    simp [fault?, isMissing, isBeyond, unbound, isName, toUndefined]

theorem fault?_of_some {value : Value} (bound : env name = some value) :
    fault? env (.variableOf name) = if value.isBeyondDoubles then some .overflow else none := by
  simp [fault?, isMissing, isBeyond, bound]

theorem fault?_variableOf (numbers : ∀ name value, env name = some value → value.IsNumber)
    (name : String) :
    (fault? env (.variableOf name) = none ∧ ∃ x, lookUp env name = .ok x) ∨
      ∃ failure, fault? env (.variableOf name) = some failure ∧
        lookUp env name = .error failure := by
  unfold lookUp
  cases bound : env name with
  | none =>
    rw [fault?_of_none bound]
    cases constant? name <;> simp
  | some value =>
    have isNumber := numbers name value bound
    rw [fault?_of_some bound]
    cases value with
    | int n =>
      cases rounded : Binary.ofInt? n <;>
        simp [Value.isBeyondDoubles, Value.toVariable, Value.toReal, rounded]
    | real _ | bool _ => simp [Value.isBeyondDoubles, Value.toVariable, Value.toReal]
    | _ => cases isNumber

theorem fault?_cases {r : Reference} {failure : Failure} (fault : r.fault? env = some failure) :
    failure = .overflow ∨ ∃ name, failure = .undefined (.unknownFunction name) ∨
      failure = .undefined (.unknownVariable name) := by
  unfold fault? at fault
  split at fault
  · cases fault
    cases r with
    | functionOf name => exact .inr ⟨name, .inl rfl⟩
    | variableOf name => exact .inr ⟨name, .inr rfl⟩
  · split at fault
    · cases fault
      exact .inl rfl
    · cases fault

end

end Reference

/-! ## Faults in order -/

/-- The result is a failure for the fault, or a value if there is none. -/
inductive Settles {α : Type} : Option Failure → Except Failure α → Prop where
  | value (x : α) : Settles none (.ok x)
  | fault (failure : Failure) : Settles (some failure) (.error failure)

namespace Settles

variable {α β : Type} {first second : Option Failure} {result : Except Failure α}

theorem bind {next : α → Except Failure β} (settles : Settles first result)
    (settlesNext : ∀ x, Settles second (next x)) :
    Settles (first.or second) (result >>= next) := by
  cases settles with
  | value x => exact settlesNext x
  | fault failure => exact .fault failure

theorem map (settles : Settles first result) (next : α → β) :
    Settles first (result >>= fun x => .ok (next x)) := by
  cases settles with
  | value x => exact .value (next x)
  | fault failure => exact .fault failure

theorem eq_error_iff (settles : Settles first result) {failure : Failure} :
    result = .error failure ↔ first = some failure := by
  cases settles <;> simp

theorem exists_ok_iff (settles : Settles first result) :
    (∃ x, result = .ok x) ↔ first = none := by
  cases settles <;> simp

end Settles

/-- Over any numbers, the expression fails for its first reference at fault alone. -/
def FailsInOrder [Machine] (e : Expr) : Prop :=
  ∀ env : Environment, (∀ name value, env name = some value → value.IsNumber) →
    Settles (e.references.findSome? (Reference.fault? env)) (eval env e)

theorem settles_evalArgs [Machine] {args : List Expr} (each : ∀ arg ∈ args, FailsInOrder arg)
    {env : Environment} (numbers : ∀ name value, env name = some value → value.IsNumber) :
    Settles ((referencesIn args).findSome? (Reference.fault? env)) (evalArgs env args) := by
  induction args with
  | nil => exact .value []
  | cons e rest ih =>
    obtain ⟨first, others⟩ := List.forall_mem_cons.mp each
    rw [referencesIn, List.findSome?_append]
    exact (first env numbers).bind fun x => (ih others).map (x :: ·)

theorem failsInOrder_inherited [Machine] : Formula.Inherited FailsInOrder where
  num x _ _ := .value x
  var {letters} _ env numbers := by
    rw [references, List.findSome?_singleton, eval]
    rcases Reference.fault?_variableOf numbers (String.ofList letters) with
      ⟨none, x, found⟩ | ⟨failure, fault, failed⟩
    · rw [none, found]
      exact .value x
    · rw [fault, failed]
      exact .fault failure
  binary {op left right} known failsLeft failsRight env numbers := by
    rw [references, List.findSome?_append, eval]
    refine (failsLeft env numbers).bind fun a => ?_
    obtain ⟨f, isOp⟩ := Option.isSome_iff_exists.mp known
    simp only [applyBinary, isOp]
    exact (failsRight env numbers).map (f a)
  minus fails env numbers := (fails env numbers).map Neg.neg
  call {letters args} _ each env numbers := by
    rw [references, List.findSome?_cons, Reference.fault?_functionOf, eval]
    -- the name is looked up before the arguments are evaluated
    cases isName : function? (String.ofList letters) with
    | none => exact .fault _
    | some f =>
      simp only [Option.isSome_some, if_true, applyCall, isName]
      exact (settles_evalArgs each numbers).map f

theorem settles_of_parse [Machine] {s : String} {e : Expr} (parsed : Formula.parse s = .ok e)
    {env : Environment} (numbers : ∀ name value, env name = some value → value.IsNumber) :
    Settles (e.references.findSome? (Reference.fault? env)) (eval env e) :=
  (Formula.writes_of_parseWithin parsed).inherits failsInOrder_inherited env numbers

/-! ## Variables among the references -/

def Reference.occurrence? : Reference → Option String
  | functionOf _ => none
  | variableOf name => if (constant? name).isSome then none else some name

mutual

theorem occurrences_eq (e : Expr) :
    e.occurrences = e.references.filterMap Reference.occurrence? :=
  match e with
  | .num _ | .foreign _ => rfl
  | .var name => by
    by_cases isConstant : (constant? name).isSome = true <;>
      simp [occurrences, references, Reference.occurrence?, isConstant]
  | .binary _ left right => by
    simp only [occurrences, references, List.filterMap_append, occurrences_eq left,
      occurrences_eq right]
  | .unary _ operand => occurrences_eq operand
  | .call _ args => occurrencesIn_eq args

theorem occurrencesIn_eq (args : List Expr) :
    occurrencesIn args = (referencesIn args).filterMap Reference.occurrence? :=
  match args with
  | [] => rfl
  | e :: rest => by
    simp only [occurrencesIn, referencesIn, List.filterMap_append, occurrences_eq e,
      occurrencesIn_eq rest]

end

/-- With nothing else at fault, the first fault is the first variable without a number. -/
theorem findSome?_fault {env : Environment} {rs : List Reference}
    (known : ∀ name, .functionOf name ∈ rs → (function? name).isSome = true)
    (within : ∀ name value, env name = some value → value.isBeyondDoubles = false) :
    rs.findSome? (Reference.fault? env) =
      ((rs.filterMap Reference.occurrence?).find? fun name => (env name).isNone).map fun name =>
        .undefined (.unknownVariable name) := by
  induction rs with
  | nil => rfl
  | cons r rs ih =>
    have rest := ih fun name member => known name (List.mem_cons_of_mem r member)
    rw [List.findSome?_cons, rest]
    cases r with
    | functionOf name =>
      rw [Reference.fault?_functionOf, if_pos (known name List.mem_cons_self)]
      rfl
    | variableOf name =>
      cases bound : env name with
      | none =>
        rw [Reference.fault?_of_none bound]
        by_cases isConstant : (constant? name).isSome = true <;>
          simp [Reference.occurrence?, isConstant, bound]
      | some value =>
        rw [Reference.fault?_of_some bound, within name value bound]
        by_cases isConstant : (constant? name).isSome = true <;>
          simp [Reference.occurrence?, isConstant, bound]

theorem find?_eraseDups (p : String → Bool) (names : List String) :
    names.eraseDups.find? p = names.find? p :=
  match names with
  | [] => rfl
  | name :: names => by
    have others := find?_eraseDups p (names.filter fun other => !other == name)
    by_cases found : p name = true
    · simp [List.eraseDups_cons, found]
    · -- only repetitions of a name that is not looked for are left out
      have kept : (names.filter fun other => !other == name).find? p = names.find? p := by
        rw [List.find?_filter]
        congr 1
        funext other
        by_cases same : other = name <;> simp [same, found]
      rw [List.eraseDups_cons, List.find?_cons_of_neg found, List.find?_cons_of_neg found, others,
        kept]
termination_by names.length
decreasing_by exact Nat.lt_succ_of_le (List.length_filter_le _ _)

/-- A parsed expression over any numbers fails for the first reference that is missing or too large,
and for nothing else. If every function exists and no number is too large, then for the first of
its variables without a number. -/
theorem evaluate_references [Machine] {s : String} {e : Expr} (parsed : Formula.parse s = .ok e)
    {env : Environment} (numbers : ∀ name value, env name = some value → value.IsNumber) :
    (∀ failure, evaluate env e = .error failure ↔
      e.references.findSome? (Reference.fault? env) = some failure) ∧
    ((∃ x, evaluate env e = .ok x) ↔ e.references.findSome? (Reference.fault? env) = none) ∧
    (∀ failure, evaluate env e = .error failure → failure = .overflow ∨
      ∃ name, failure = .undefined (.unknownFunction name) ∨
        failure = .undefined (.unknownVariable name)) ∧
    ((∀ name, .functionOf name ∈ e.references → (function? name).isSome = true) →
      (∀ name value, env name = some value → value.isBeyondDoubles = false) →
      ((∃ failure, evaluate env e = .error failure) ↔ ∃ name ∈ e.variableNames, env name = none) ∧
      ∀ failure, evaluate env e = .error failure ↔
        ∃ name, e.variableNames.find? (fun name => (env name).isNone) = some name ∧
          failure = .undefined (.unknownVariable name)) := by
  have settles := settles_of_parse parsed numbers
  rw [evaluate_eq_eval]
  refine ⟨fun failure => settles.eq_error_iff, settles.exists_ok_iff, ?_, fun known within => ?_⟩
  · intro failure failed
    obtain ⟨r, _, fault⟩ := List.exists_of_findSome?_eq_some (settles.eq_error_iff.mp failed)
    exact Reference.fault?_cases fault
  · rw [findSome?_fault known within, ← occurrences_eq, ← find?_eraseDups] at settles
    have failures (failure : Failure) : eval env e = .error failure ↔
        ∃ name, e.variableNames.find? (fun name => (env name).isNone) = some name ∧
          failure = .undefined (.unknownVariable name) := by
      rw [settles.eq_error_iff, Option.map_eq_some_iff]
      simp only [variableNames, eq_comm]
    refine ⟨?_, failures⟩
    constructor
    · rintro ⟨failure, failed⟩
      obtain ⟨name, first, _⟩ := (failures failure).mp failed
      exact ⟨name, List.mem_of_find?_eq_some first, by simpa using List.find?_some first⟩
    · rintro ⟨name, member, unbound⟩
      have found : (e.variableNames.find? fun name => (env name).isNone).isSome = true :=
        List.find?_isSome.mpr ⟨name, member, by simp [unbound]⟩
      obtain ⟨first, isFirst⟩ := Option.isSome_iff_exists.mp found
      exact ⟨_, (failures _).mpr ⟨first, isFirst, rfl⟩⟩

def onlyX (value : Value) : Environment := fun name => if name = "x" then some value else none

theorem value_onlyX {value found : Value} {name : String} (bound : onlyX value name = some found) :
    found = value := by
  unfold onlyX at bound
  split at bound <;> cases bound
  rfl

def partlyGiven : Expr :=
  .binary "/" (.call "max" [.var "x", .binary "+" (.var "b") (.var "a")]) (.var "b")

section

attribute [local instance] Machine.standard

theorem evaluate_references_partlyGiven :
    Formula.parse "max(x, b + a) / b" = .ok partlyGiven ∧
      (∀ name value, onlyX (.int 1) name = some value → value.IsNumber) ∧
      (∀ name, .functionOf name ∈ partlyGiven.references → (function? name).isSome = true) ∧
      (∀ name value, onlyX (.int 1) name = some value → value.isBeyondDoubles = false) ∧
      partlyGiven.variableNames.find? (fun name => (onlyX (.int 1) name).isNone) = some "b" ∧
      partlyGiven.evaluate (onlyX (.int 1)) = .error (.undefined (.unknownVariable "b")) := by
  have parsed : Formula.parse "max(x, b + a) / b" = .ok partlyGiven := by rfl
  have numbers (name : String) (value : Value) (bound : onlyX (.int 1) name = some value) :
      value.IsNumber := by
    rw [value_onlyX bound]
    trivial
  have within (name : String) (value : Value) (bound : onlyX (.int 1) name = some value) :
      value.isBeyondDoubles = false := by
    rw [value_onlyX bound]
    decide +kernel
  have known : ∀ name, .functionOf name ∈ partlyGiven.references →
      (function? name).isSome = true := by
    simp [partlyGiven, references, referencesIn, function?, functions]
  have first : partlyGiven.variableNames.find? (fun name => (onlyX (.int 1) name).isNone) =
      some "b" := by decide +kernel
  obtain ⟨_, _, _, variablesOnly⟩ := evaluate_references parsed numbers
  obtain ⟨_, failures⟩ := variablesOnly known within
  exact ⟨parsed, numbers, known, within, first, (failures _).mpr ⟨"b", first, rfl⟩⟩

def vast : Int := 10 ^ 400

/-- A number beyond the doubles is reported before a missing variable after it. -/
theorem evaluate_beyondDoubles :
    ∃ e, Formula.parse "x + y" = .ok e ∧
      (∀ name value, onlyX (.int vast) name = some value → value.IsNumber) ∧
      e.references.find? (Reference.isMissing (onlyX (.int vast))) = some (.variableOf "y") ∧
      e.evaluate (onlyX (.int vast)) ≠ .error (.undefined (.unknownVariable "y")) := by
  refine ⟨.binary "+" (.var "x") (.var "y"), by rfl, ?_, by decide +kernel, ?_⟩
  · intro name value bound
    rw [value_onlyX bound]
    trivial
  · have none : Binary.ofInt? vast = none := by decide +kernel
    simp [evaluate_eq_eval, eval, lookUp, onlyX, Value.toVariable, Value.toReal, none, bind,
      Except.bind]

end

end Expr

end Reckon
