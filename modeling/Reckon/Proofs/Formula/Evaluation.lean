import Mathlib.Data.List.Basic
import Reckon.Formula.Eval
import Reckon.Proofs.Failing
import Reckon.Proofs.Value.Told

/-!
Evaluation on stacks against evaluation by recursion.

A node does its work on top of whatever else waits on the two stacks, and in the end it has put its
value on the stack of values or it has failed. `Yields` says so for a run of tasks, and it is kept by
putting runs one after the other, by the operator that takes the values of a run, and by the visit of
a node. Main statement: both evaluations give the same result, and no task is ever short of a value.
-/

set_option autoImplicit false

namespace Reckon.Expr

variable {env : Environment}

/-! ## Operators and functions -/

namespace Task

/-- Whether the task applies something to that many values. -/
def takes : Task → Nat → Prop
  | visit _, _ => False
  | unary _, count => count = 1
  | binary _, count => count = 2
  | call _ arity, count => count = arity

/-- What the task makes of the values that it takes, the first operand in front. -/
def combine : Task → List Float → Except Failure Float
  | unary op, [operand] => applyUnary op operand
  | binary op, [left, right] => applyBinary op left right
  | call name _, args => applyCall name args
  | _, _ => .error .outOfRange

theorem run_of_takes [Machine] {task : Task} {made : List Float} (fits : task.takes made.length)
    (values : List Float) :
    task.run env (made.reverse ++ values) =
      (task.combine made).map fun value => ([], value :: values) := by
  cases task with
  | visit e => cases fits
  | unary op =>
    obtain ⟨operand, rfl⟩ := List.length_eq_one_iff.mp fits
    simp only [List.reverse_singleton, List.singleton_append, run, combine]
    cases applyUnary op operand <;> rfl
  | binary op =>
    obtain ⟨left, right, rfl⟩ := List.length_eq_two.mp fits
    simp only [List.reverse_cons, List.reverse_nil, List.nil_append, List.cons_append, run, combine]
    cases applyBinary op left right <;> rfl
  | call name count =>
    obtain rfl : made.length = count := fits
    have taken : (made.reverse ++ values).take made.length = made.reverse := by simp
    have left : (made.reverse ++ values).drop made.length = values := by simp
    have enough : made.length ≤ (made.reverse ++ values).length := by simp
    simp only [run, taken, left, enough, List.reverse_reverse, combine, if_true]
    cases applyCall name made <;> rfl

end Task

/-! ## Runs of tasks -/

/-- What the tasks do above any other tasks and values, at the cost of some fuel: they put values on
the stack, the latest one in front, or they fail. -/
def Yields [Machine] (env : Environment) (cost : Nat) (work : List Task)
    (result : Except Failure (List Float)) : Prop :=
  ∀ (fuel : Nat) (tasks : List Task) (values : List Float), ∃ spare, fuel ≤ spare ∧
    runTasks env (cost + fuel) (work ++ tasks) values =
      result.bind fun made => runTasks env spare tasks (made.reverse ++ values)

def Makes (result : Except Failure (List Float)) (count : Nat) : Prop :=
  ∀ made, result = .ok made → made.length = count

namespace Makes

theorem single (value : Except Failure Float) : Makes (value.map fun x => [x]) 1 := by
  intro made evaluated
  cases value with
  | error failure => cases evaluated
  | ok x =>
    cases evaluated
    rfl

theorem append {result result' : Except Failure (List Float)} {count count' : Nat}
    (first : Makes result count) (second : Makes result' count') :
    Makes (result.bind fun made => result'.bind fun made' => .ok (made ++ made'))
      (count + count') := by
  intro all evaluated
  cases result with
  | error failure => cases evaluated
  | ok made =>
    cases result' with
    | error failure => cases evaluated
    | ok made' =>
      cases evaluated
      rw [List.length_append, first made rfl, second made' rfl]

theorem evalArgs [Machine] (env : Environment) (args : List Expr) :
    Makes (evalArgs env args) args.length := by
  induction args with
  | nil =>
    intro made evaluated
    cases evaluated
    rfl
  | cons e args ih =>
    have all := (single (eval env e)).append ih
    rw [List.length_cons, Nat.add_comm]
    convert all using 1
    simp only [Expr.evalArgs]
    cases eval env e <;> cases Expr.evalArgs env args <;> rfl

end Makes

namespace Yields

variable [Machine] {cost : Nat} {work : List Task} {result : Except Failure (List Float)}

theorem nil : Yields env 0 [] (.ok []) :=
  fun fuel _ _ => ⟨fuel, Nat.le_refl _, by simp [Except.bind]⟩

theorem append {cost' : Nat} {work' : List Task} {result' : Except Failure (List Float)}
    (first : Yields env cost work result) (second : Yields env cost' work' result') :
    Yields env (cost + cost') (work ++ work')
      (result.bind fun made => result'.bind fun made' => .ok (made ++ made')) := by
  intro fuel tasks values
  obtain ⟨left, more, runs⟩ := first (cost' + fuel) (work' ++ tasks) values
  rw [Nat.add_assoc, List.append_assoc, runs]
  cases result with
  | error failure => exact ⟨fuel, Nat.le_refl _, rfl⟩
  | ok made =>
    obtain ⟨spare, enough, runs'⟩ := second (left - cost') tasks (made.reverse ++ values)
    rw [Nat.add_sub_cancel' (by omega)] at runs'
    refine ⟨spare, by omega, runs'.trans ?_⟩
    cases result' with
    | error failure => rfl
    | ok made' => simp [Except.bind]

/-- An operator or a function takes the values of the run before it. -/
theorem apply {count : Nat} (task : Task) (operands : Yields env cost work result)
    (made : Makes result count) (takes : task.takes count) :
    Yields env (cost + 1) (work ++ [task])
      (result.bind fun made => (task.combine made).map fun value => [value]) := by
  intro fuel tasks values
  obtain ⟨left, more, runs⟩ := operands (1 + fuel) ([task] ++ tasks) values
  rw [Nat.add_assoc, List.append_assoc, runs]
  cases result with
  | error failure => exact ⟨fuel, Nat.le_refl _, rfl⟩
  | ok values' =>
    obtain ⟨spare, rfl⟩ : ∃ spare, left = spare + 1 := ⟨left - 1, by omega⟩
    have fits : task.takes values'.length := made values' rfl ▸ takes
    refine ⟨spare, by omega, ?_⟩
    simp only [Except.bind, List.singleton_append, runTasks, Task.run_of_takes fits]
    cases task.combine values' <;> rfl

theorem visit {e : Expr} (added : Yields env cost work result)
    (step : ∀ values, Task.run env values (.visit e) = .ok (work, values)) :
    Yields env (cost + 1) [.visit e] result := by
  intro fuel tasks values
  obtain ⟨spare, enough, runs⟩ := added fuel tasks values
  refine ⟨spare, enough, ?_⟩
  rw [Nat.add_right_comm, List.singleton_append, runTasks, step]
  exact runs

theorem leaf {e : Expr} {value : Except Failure Float}
    (step : ∀ values,
      Task.run env values (.visit e) = value.map fun x => ([], x :: values)) :
    Yields env 2 [.visit e] (value.map fun x => [x]) := by
  intro fuel tasks values
  refine ⟨fuel + 1, by omega, ?_⟩
  have unfolded : 2 + fuel = fuel + 1 + 1 := by omega
  rw [unfolded, List.singleton_append, runTasks, step]
  cases value <;> rfl

theorem mono {cost' : Nat} (yields : Yields env cost work result) (enough : cost ≤ cost') :
    Yields env cost' work result := by
  intro fuel tasks values
  obtain ⟨spare, more, runs⟩ := yields (cost' - cost + fuel) tasks values
  rw [← Nat.add_assoc, Nat.add_sub_cancel' enough] at runs
  exact ⟨spare, by omega, runs⟩

theorem of_eq {result' : Except Failure (List Float)} (yields : Yields env cost work result)
    (same : result = result') : Yields env cost work result' :=
  same ▸ yields

end Yields

/-! ## Nodes -/

mutual

/-- The work of an expression yields its value, at the cost of two tasks a node at most. -/
theorem yields_visit [Machine] (env : Environment) (e : Expr) :
    Yields env (2 * e.size) [.visit e] ((eval env e).map fun value => [value]) :=
  match e with
  | .num value => .leaf fun _ => rfl
  | .var name => .leaf fun values => by
    simp only [Task.run, eval]
    cases lookUp env name <;> rfl
  | .foreign value => .leaf fun _ => rfl
  | .unary op operand => by
    have work := (yields_visit env operand).apply (.unary op) (.single _) rfl
    refine (work.visit (e := .unary op operand) fun _ => rfl).of_eq ?_
    simp only [eval]
    cases eval env operand <;> rfl
  | .binary op left right => by
    have operands := (yields_visit env left).append (yields_visit env right)
    have work := operands.apply (.binary op) ((Makes.single _).append (.single _)) rfl
    refine ((work.visit (e := .binary op left right) fun _ => rfl).of_eq ?_).mono ?_
    · simp only [eval]
      cases eval env left <;> cases eval env right <;> rfl
    · simp only [size]
      omega
  | .call name args => by
    -- an unknown function is refused before its arguments add any work
    by_cases known : (function? name).isSome = true
    · have work := (yields_visits env args).apply (.call name args.length)
        (.evalArgs env args) rfl
      refine (work.visit (e := .call name args) fun _ => ?_).of_eq ?_
      · simp [Task.run, known]
      · simp only [eval, known, if_true]
        cases evalArgs env args <;> rfl
    · have refused : eval env (.call name args) = .error (.undefined (.unknownFunction name)) := by
        simp [eval, known]
      rw [refused]
      refine (Yields.leaf fun _ => ?_).mono ?_
      · simp [Task.run, known, Except.map]
      · simp only [size]
        omega

theorem yields_visits [Machine] (env : Environment) (args : List Expr) :
    Yields env (2 * sizeOf args) (args.map .visit) (evalArgs env args) :=
  match args with
  | [] => .nil
  | e :: rest => by
    have work := (yields_visit env e).append (yields_visits env rest)
    refine (work.of_eq ?_).mono ?_
    · simp only [evalArgs]
      cases eval env e <;> cases evalArgs env rest <;> rfl
    · simp only [sizeOf]
      omega

end

/-- The stacks of an expression on its own end with its value alone. -/
theorem evaluate_eq_eval [Machine] (env : Environment) (e : Expr) :
    evaluate env e = eval env e := by
  obtain ⟨spare, _, runs⟩ := yields_visit env e 0 [] []
  refine runs.trans ?_
  cases eval env e <;> cases spare <;> rfl

/-! ## Failures -/

mutual

/-- The values inside the expression that are no expressions. -/
def foreigns : Expr → List Value
  | num _ | var _ => []
  | foreign value => [value]
  | binary _ left right => foreigns left ++ foreigns right
  | unary _ operand => foreigns operand
  | call _ args => foreignsIn args

/-- The values inside a list of expressions that are no expressions. -/
def foreignsIn : List Expr → List Value
  | [] => []
  | e :: rest => foreigns e ++ foreignsIn rest

end

theorem foreignsIn_eq_nil {args : List Expr} (none : ∀ arg ∈ args, arg.foreigns = []) :
    foreignsIn args = [] := by
  induction args with
  | nil => rfl
  | cons e rest ih =>
    have first := none e (List.mem_cons_self ..)
    have others := ih fun arg later => none arg (List.mem_cons_of_mem e later)
    rw [foreignsIn, first, others, List.nil_append]

/-- Why an evaluation fails: for a variable, for a name that means nothing, or for a value that is
no expression. -/
inductive Blames [Machine] (env : Environment) (strangers : List Value) : Failure → Prop where
  | lookUp {name : String} {failure : Failure} :
      Expr.lookUp env name = .error failure → Blames env strangers failure
  | undefined (reference : Undefined) : Blames env strangers (.undefined reference)
  | stranger {value : Value} : value ∈ strangers →
    Blames env strangers (value.naming (.unfit (.notExpression value)))

theorem Blames.mono [Machine] {strangers more : List Value} {failure : Failure}
    (blames : Blames env strangers failure) (sub : strangers ⊆ more) : Blames env more failure := by
  cases blames with
  | lookUp refused => exact .lookUp refused
  | undefined reference => exact .undefined reference
  | stranger member => exact .stranger (sub member)

mutual

theorem failsFor_eval [Machine] (env : Environment) (e : Expr) :
    FailsFor (Blames env e.foreigns) (eval env e) :=
  match e with
  | .num _ => .ok _
  | .var _ => fun _ refused => .lookUp refused
  | .foreign value => .error (.stranger (List.mem_singleton_self value))
  | .unary op operand => by
    refine (failsFor_eval env operand).bind fun x _ => ?_
    unfold applyUnary
    split
    · exact .ok _
    · exact .error (.undefined _)
  | .binary op left right => by
    have first := (failsFor_eval env left).mono fun _ blames =>
      blames.mono (List.subset_append_left _ (foreigns right))
    have second := (failsFor_eval env right).mono fun _ blames =>
      blames.mono (List.subset_append_right (foreigns left) _)
    refine first.bind fun x _ => second.bind fun y _ => ?_
    unfold applyBinary
    split
    · exact .ok _
    · exact .error (.undefined _)
  | .call name args => by
    rw [eval]
    split
    · refine (failsFor_evalArgs env args).bind fun values _ => ?_
      unfold applyCall
      split
      · exact .ok _
      · exact .error (.undefined _)
    · exact .error (.undefined _)

theorem failsFor_evalArgs [Machine] (env : Environment) (args : List Expr) :
    FailsFor (Blames env (foreignsIn args)) (evalArgs env args) :=
  match args with
  | [] => .ok _
  | e :: rest => by
    have first := (failsFor_eval env e).mono fun _ blames =>
      blames.mono (List.subset_append_left _ (foreignsIn rest))
    have others := (failsFor_evalArgs env rest).mono fun _ blames =>
      blames.mono (List.subset_append_right (foreigns e) _)
    exact first.bind fun value _ => others.bind fun values _ => .ok _

end

/-- With numbers for variables and nothing foreign, a failure names what is not defined. -/
theorem undefined_of_eval [Machine] {env : Environment} {e : Expr} {failure : Failure}
    (numbers : ∀ name value, env name = some value → ∃ x, value = .real x)
    (plain : e.foreigns = []) (failed : eval env e = .error failure) :
    ∃ reference, failure = .undefined reference := by
  cases failsFor_eval env e _ failed with
  | lookUp refused =>
    unfold lookUp at refused
    split at refused
    · next value bound =>
      obtain ⟨x, rfl⟩ := numbers _ value bound
      cases refused
    · split at refused <;> cases refused
      exact ⟨_, rfl⟩
  | undefined reference => exact ⟨reference, rfl⟩
  | stranger member =>
    rw [plain] at member
    cases member

theorem toVariable_ne_outOfRange (value : Value) : value.toVariable ≠ .error .outOfRange := by
  have written (original : Value) (s : String) : Value.realOf original s ≠ .error .outOfRange := by
    unfold Value.realOf
    split <;> simp
  cases value with
  | text s => exact written _ s
  | bytes content => exact written _ _
  | int n =>
    simp only [Value.toVariable, Value.toReal]
    split <;> simp
  | _ => simp [Value.toVariable, Value.toReal]

theorem lookUp_ne_outOfRange (env : Environment) (name : String) :
    lookUp env name ≠ .error .outOfRange := by
  unfold lookUp
  split
  · exact toVariable_ne_outOfRange _
  · split <;> simp

end Reckon.Expr
