import Mathlib.Data.List.Induction
import Reckon.Model.Basic
import Reckon.Proofs.Change
import Reckon.Proofs.Model.Bindings

/-!
Models under runs of calls.

`Effect` lists what one call can do to a model, and everything about runs follows from it. Main
statement: the distribution of a variable is what its own assignments make of the usual one, counted
from the call that last made it a variable.
-/

set_option autoImplicit false

namespace Reckon

namespace Model

inductive Call where
  | setFormula (formula : Value)
  | assign (name : String) (assignment : Assignment)
  | assignNamed (name : String) (value : Value) (parameters : Entries)
  | assignWith (given : Arguments)

namespace Call

def change [Machine] : Call → Change Model Unit
  | setFormula formula => Model.setFormula formula
  | assign name assignment => Model.assign name assignment
  | assignNamed name value parameters => Model.assignNamed name value parameters
  | assignWith given => Model.assignWith given

/-- The name that the call assigns to, and what it assigns. -/
def assigns? : Call → Option (String × Assignment)
  | setFormula _ => none
  | assign name assignment => some (name, assignment)
  | assignNamed name value parameters => some (name, .ofValue value parameters)
  | assignWith given =>
    given.bound.toOption.map fun (name, argument) =>
      (name, (argument.getD (.value .null)).assignment given.parameters)

end Call

def variableNames (m : Model) : List String :=
  m.expr.variableNames

/-! ## What one call does -/

inductive Effect [Machine] (m : Model) : Call → Except Failure Unit → Model → Prop where
  | refused {call : Call} {failure : Failure} : Effect m call (.error failure) m
  | formula {formula body : Value} {name : String} {expr : Expr} :
      splitName m.name formula = (name, body) → Formula.parseValue body = .ok expr →
      Effect m (.setFormula formula) (.ok ())
        ⟨name, Text.trim body.toText, expr, m.bindings.refreshed expr.variableNames⟩
  | assigned {call : Call} {name : String} {assignment : Assignment} {current d : Distribution} :
      call.assigns? = some (name, assignment) → m.bindings.find? name = some current →
      (assignment.resolve current).result = .ok d →
      Effect m call (.ok ()) { m with bindings := m.bindings.set name d }

theorem setFormula_of_error [Machine] {m : Model} {formula body : Value} {name : String}
    {failure : Failure} (cut : splitName m.name formula = (name, body))
    (refused : Formula.parseValue body = .error failure) :
    setFormula formula m = (.fail failure, m) := by
  rw [setFormula, Change.current_bind]
  simp only [cut, refused]
  rfl

theorem setFormula_of_ok [Machine] {m : Model} {formula body : Value} {name : String} {expr : Expr}
    (cut : splitName m.name formula = (name, body))
    (parsed : Formula.parseValue body = .ok expr) :
    (setFormula formula).Leads m ()
      ⟨name, Text.trim body.toText, expr, m.bindings.refreshed expr.variableNames⟩ := by
  rw [setFormula, Change.Leads, Change.current_bind]
  simp only [cut, parsed]
  rw [Change.liftExcept_ok_bind, Change.bind_of_ok (Change.update_apply _ _)]
  split <;> exact ⟨_, rfl⟩

theorem assign_of_none [Machine] {m : Model} {name : String}
    (missing : m.bindings.find? name = none) (assignment : Assignment) :
    assign name assignment m = (.fail (.absent (.inFormula name m.formula)), m) := by
  rw [assign, Change.current_bind]
  simp only [missing]
  rfl

theorem assign_of_some [Machine] {m : Model} {name : String} {current : Distribution}
    (found : m.bindings.find? name = some current) (assignment : Assignment) :
    assign name assignment m =
      match assignment.resolve current with
      | ⟨events, .error failure⟩ => (⟨events, .error failure⟩, m)
      | ⟨events, .ok d⟩ => (⟨events, .ok ()⟩, { m with bindings := m.bindings.set name d }) := by
  rw [assign, Change.current_bind]
  simp only [found]
  split
  · next failed =>
    rw [failed]
    rfl
  · next resolved =>
    rw [resolved, Change.bind_of_ok (Change.lift_apply _ _), Change.update_apply, List.append_nil]

theorem leads_assign [Machine] {m : Model} {name : String} {current d : Distribution}
    (found : m.bindings.find? name = some current) {assignment : Assignment}
    (resolved : (assignment.resolve current).result = .ok d) :
    (assign name assignment).Leads m () { m with bindings := m.bindings.set name d } := by
  refine ⟨(assignment.resolve current).events, ?_⟩
  rw [assign_of_some found]
  rcases made : assignment.resolve current with ⟨events, failure | other⟩
  · rw [made] at resolved
    cases resolved
  · rw [made] at resolved
    cases resolved
    rfl

/-- Parameters with other names than those that are kept are assigned. -/
theorem assignNamed_of_free [Machine] {parameters : Entries}
    (free : ∀ kept ∈ keptNames, parameters.get? kept = none) (name : String) (value : Value) :
    assignNamed name value parameters = assign name (.ofValue value parameters) := by
  have unkept : (keptNames.any fun kept => (parameters.get? kept).isSome) = false := by
    rw [List.any_eq_false]
    intro kept isKept
    rw [free kept isKept]
    decide
  rw [assignNamed, unkept]
  rfl

theorem assignWith_of_error [Machine] {given : Arguments} {failure : Failure}
    (refused : given.bound = .error failure) (m : Model) :
    assignWith given m = (.fail failure, m) := by
  rw [assignWith, refused]
  rfl

theorem assignWith_of_ok [Machine] {given : Arguments} {name : String} {argument : Option Argument}
    (bound : given.bound = .ok (name, argument)) (m : Model) :
    assignWith given m =
      assign name ((argument.getD (.value .null)).assignment given.parameters) m := by
  rw [assignWith, bound]
  rfl

theorem leads_setAll {α : Type} {items : List α} {change : α → Change Model Unit}
    {chosen : Bindings} (each : List.Forall₂ (fun item entry => ∀ m : Model,
      entry.1 ∈ m.bindings.names → (change item).Leads m ()
        { m with bindings := m.bindings.set entry.1 entry.2 }) items chosen) {m : Model}
    (bound : ∀ name ∈ chosen.names, name ∈ m.bindings.names) :
    (items.forM change).Leads m () { m with bindings := m.bindings.setAll chosen } := by
  induction each generalizing m with
  | nil => exact Change.leads_pure () m
  | @cons item entry items chosen first _ ih =>
    obtain ⟨isBound, boundRest⟩ := List.forall_mem_cons.mp bound
    -- a variable that is set stays bound, so the later changes find theirs
    have same : (m.bindings.set entry.1 entry.2).names = m.bindings.names :=
      Bindings.names_set_of_mem isBound
    exact (first m isBound).bind (ih (by rwa [same]))

theorem effect_setFormula [Machine] (m : Model) (formula : Value) :
    Effect m (.setFormula formula) (setFormula formula m).1.result (setFormula formula m).2 := by
  cases parsed : Formula.parseValue (splitName m.name formula).2 with
  | error error =>
    rw [setFormula_of_error rfl parsed]
    exact .refused
  | ok expr =>
    obtain ⟨events, done⟩ := setFormula_of_ok rfl parsed
    rw [done]
    exact .formula rfl parsed

theorem effect_assign [Machine] (m : Model) {call : Call} {name : String} {assignment : Assignment}
    (assigns : call.assigns? = some (name, assignment)) :
    Effect m call (assign name assignment m).1.result (assign name assignment m).2 := by
  cases found : m.bindings.find? name with
  | none =>
    rw [assign_of_none found]
    exact .refused
  | some current =>
    rw [assign_of_some found]
    cases resolved : assignment.resolve current with
    | mk events result =>
      cases result with
      | error failure => exact .refused
      | ok d => exact .assigned assigns found (by rw [resolved])

theorem effect [Machine] (m : Model) (call : Call) :
    Effect m call (call.change m).1.result (call.change m).2 := by
  cases call with
  | setFormula formula => exact effect_setFormula m formula
  | assign name assignment => exact effect_assign m rfl
  | assignNamed name value parameters =>
    simp only [Call.change, assignNamed]
    split
    · exact .refused
    · exact effect_assign m rfl
  | assignWith given =>
    cases bound : given.bound with
    | error failure =>
      rw [Call.change, assignWith_of_error bound]
      exact .refused
    | ok target =>
      rw [Call.change, assignWith_of_ok bound]
      exact effect_assign m (by rw [Call.assigns?, bound]; rfl)

/-! ## Runs -/

def after [Machine] (m : Model) (call : Call) : Model :=
  (call.change m).2

def run [Machine] (m : Model) (calls : List Call) : Model :=
  calls.foldl after m

theorem run_concat [Machine] (m : Model) (calls : List Call) (call : Call) :
    m.run (calls ++ [call]) = (m.run calls).after call := by
  simp [run]

theorem Effect.names [Machine] {m next : Model} {call : Call} {result : Except Failure Unit}
    (effect : Effect m call result next) (names : m.bindings.names = m.variableNames) :
    next.bindings.names = next.variableNames := by
  cases effect with
  | refused => exact names
  | formula _ _ => exact Bindings.names_refreshed (Expr.nodup_variableNames _) _
  | assigned _ found _ =>
    rw [Bindings.names_set_of_mem (Bindings.mem_names_of_find? found)]
    exact names

/-- Whatever has been called, exactly the variables of the formula are bound, in their order. -/
theorem names_run_blank [Machine] (calls : List Call) :
    (blank.run calls).bindings.names = (blank.run calls).variableNames := by
  induction calls using List.reverseRecOn with
  | nil => rfl
  | append_singleton calls call ih =>
    rw [run_concat]
    exact (effect (blank.run calls) call).names ih

/-! ## Histories -/

structure Step where
  before : Model
  call : Call

namespace Step

def result [Machine] (step : Step) : Except Failure Unit :=
  (step.call.change step.before).1.result

def after [Machine] (step : Step) : Model :=
  step.before.after step.call

def Introduces [Machine] (name : String) (step : Step) : Prop :=
  (∃ formula, step.call = .setFormula formula) ∧ step.result = .ok () ∧
    name ∉ step.before.variableNames ∧ name ∈ step.after.variableNames

def assignment? [Machine] (name : String) (step : Step) : Option Assignment :=
  match step.result, step.call.assigns? with
  | .ok (), some (assigned, assignment) => if assigned = name then some assignment else none
  | _, _ => none

end Step

def trace [Machine] (m : Model) : List Call → List Step
  | [] => []
  | call :: calls => ⟨m, call⟩ :: trace (m.after call) calls

/-- What the successful assignments to the name make of the usual distribution. -/
def replay [Machine] (name : String) (steps : List Step) : Option Distribution :=
  (steps.filterMap (Step.assignment? name)).foldlM
    (fun current assignment => (assignment.resolve current).result.toOption) .initial

theorem trace_concat [Machine] (m : Model) (calls : List Call) (call : Call) :
    m.trace (calls ++ [call]) = m.trace calls ++ [⟨m.run calls, call⟩] := by
  induction calls generalizing m with
  | nil => rfl
  | cons first calls ih => simp [trace, ih, run]

theorem replay_concat_of_none [Machine] {name : String} {step : Step} (steps : List Step)
    (untouched : step.assignment? name = none) :
    replay name (steps ++ [step]) = replay name steps := by
  simp [replay, List.filterMap_append, untouched]

theorem replay_concat_of_some [Machine] {name : String} {step : Step} {assignment : Assignment}
    {steps : List Step} {current d : Distribution}
    (assigned : step.assignment? name = some assignment)
    (replayed : replay name steps = some current)
    (resolved : (assignment.resolve current).result = .ok d) :
    replay name (steps ++ [step]) = some d := by
  simp only [replay] at replayed
  have last : [step].filterMap (Step.assignment? name) = [assignment] := by simp [assigned]
  simp only [replay, List.filterMap_append, last, List.foldlM_append, replayed]
  simp [resolved, Except.toOption]

/-- The name has become a variable in some step and stayed one since; the distribution is what its
assignments since then have made of the usual one. -/
def Recounts [Machine] (name : String) (steps : List Step) (d : Distribution) : Prop :=
  ∃ earlier entry since, steps = earlier ++ entry :: since ∧ entry.Introduces name ∧
    (∀ step ∈ since, name ∈ step.before.variableNames) ∧ replay name since = some d

namespace Recounts

variable {name : String} {steps : List Step} {step : Step} {d : Distribution}

theorem enter [Machine] (introduces : step.Introduces name) :
    Recounts name (steps ++ [step]) .initial :=
  ⟨steps, step, [], rfl, introduces, by simp, rfl⟩

theorem extend [Machine] {next : Distribution} (recounts : Recounts name steps d)
    (present : name ∈ step.before.variableNames)
    (redone : ∀ since, replay name since = some d → replay name (since ++ [step]) = some next) :
    Recounts name (steps ++ [step]) next := by
  obtain ⟨earlier, entry, since, rfl, introduces, stays, replayed⟩ := recounts
  refine ⟨earlier, entry, since ++ [step], by simp, introduces, ?_, redone since replayed⟩
  intro other member
  rcases List.mem_append.mp member with old | new
  · exact stays other old
  · obtain rfl := List.mem_singleton.mp new
    exact present

theorem keep [Machine] (recounts : Recounts name steps d)
    (present : name ∈ step.before.variableNames)
    (untouched : step.assignment? name = none) : Recounts name (steps ++ [step]) d := by
  apply recounts.extend present
  intro since replayed
  rw [replay_concat_of_none since untouched, replayed]

theorem assign [Machine] {assignment : Assignment} {next : Distribution}
    (recounts : Recounts name steps d)
    (present : name ∈ step.before.variableNames)
    (assigned : step.assignment? name = some assignment)
    (resolved : (assignment.resolve d).result = .ok next) :
    Recounts name (steps ++ [step]) next := by
  apply recounts.extend present
  intro since replayed
  exact replay_concat_of_some assigned replayed resolved

end Recounts

theorem Effect.recounts [Machine] {step : Step} {next : Model} {result : Except Failure Unit}
    {steps : List Step} {name : String} (effect : Effect step.before step.call result next)
    (ended : step.result = result) (left : step.after = next)
    (names : step.before.bindings.names = step.before.variableNames)
    (known : name ∈ step.before.variableNames →
      ∃ d, step.before.bindings.find? name = some d ∧ Recounts name steps d)
    (isVariable : name ∈ next.variableNames) :
    ∃ d, next.bindings.find? name = some d ∧ Recounts name (steps ++ [step]) d := by
  obtain ⟨m, call⟩ := step
  cases effect with
  | refused =>
    obtain ⟨d, found, recounts⟩ := known isVariable
    exact ⟨d, found, recounts.keep isVariable (by simp [Step.assignment?, ended])⟩
  | @formula formula _ _ expr cut parsed =>
    have refreshed := Bindings.find?_refreshed (Expr.nodup_variableNames expr) m.bindings isVariable
    refine ⟨_, refreshed, ?_⟩
    -- a variable that stays goes on with its account, and one that enters starts another
    by_cases stays : name ∈ m.variableNames
    · obtain ⟨d, found, recounts⟩ := known stays
      rw [Bindings.kept_of_find? found]
      exact recounts.keep stays (by simp [Step.assignment?, Call.assigns?])
    · have entering : Step.Introduces name ⟨m, .setFormula formula⟩ :=
        ⟨⟨formula, rfl⟩, ended, stays, left ▸ isVariable⟩
      have missing : name ∉ m.bindings.names := by
        rw [names]
        exact stays
      rw [Bindings.kept_of_notMem missing]
      exact .enter entering
  | @assigned _ assigned assignment current d assigns found resolved =>
    obtain ⟨old, foundOld, recounts⟩ := known isVariable
    rw [Bindings.find?_set]
    -- the call adds something to replay for the assigned variable alone
    by_cases same : name = assigned
    · subst same
      obtain rfl : current = old := Option.some.inj (found.symm.trans foundOld)
      have assigned : Step.assignment? name ⟨m, call⟩ = some assignment := by
        simp [Step.assignment?, ended, assigns]
      exact ⟨d, if_pos rfl, recounts.assign isVariable assigned resolved⟩
    · have untouched : Step.assignment? name ⟨m, call⟩ = none := by
        simp [Step.assignment?, ended, assigns, Ne.symm same]
      exact ⟨old, by rw [if_neg same, foundOld], recounts.keep isVariable untouched⟩

/-- After any calls on a model the distribution of a variable is what the successful assignments to
it have made of the usual one, from the step on that last made it a variable. -/
theorem bound_recounts [Machine] (calls : List Call) (name : String)
    (isVariable : name ∈ (blank.run calls).variableNames) :
    ∃ d, (blank.run calls).bindings.find? name = some d ∧ Recounts name (blank.trace calls) d := by
  -- a call extends the trace at its end, so the induction takes the last call off
  induction calls using List.reverseRecOn with
  | nil => cases isVariable
  | append_singleton calls call ih =>
    rw [run_concat] at isVariable ⊢
    rw [trace_concat]
    exact (effect (blank.run calls) call).recounts rfl rfl (names_run_blank calls) ih isVariable

/-- The variable leaves the formula, comes back and is assigned again. -/
def returning : List Call :=
  [.setFormula (.text "x"), .assign "x" (.distribution (.uniform 1 2)), .setFormula (.text "y"),
    .setFormula (.text "x+y"), .assign "x" (.distribution (.uniform 3 4)), .setFormula (.text "(")]

section

attribute [local instance] Machine.standard

theorem bound_recounts_returning :
    "x" ∈ (blank.run returning).variableNames ∧
      ∃ d, (blank.run returning).bindings.find? "x" = some d ∧
        Recounts "x" (blank.trace returning) d :=
  have present : "x" ∈ (blank.run returning).variableNames := by decide +kernel
  ⟨present, bound_recounts returning "x" present⟩

end

end Model

end Reckon
