import Reckon.Proofs.Formula.Blanks
import Reckon.Proofs.Model.History

/-!
How the parts of a model hang together.

The bindings are those of the variables of the expression, the expression is what the formula
writes, and the name and the formula can be joined by an equals sign and cut apart again. Every call
keeps this, whether or not it fails, so that a model can be written down as a text and read back.
-/

set_option autoImplicit false

namespace Reckon.Model

/-! ## Names before an equals sign -/

/-- The text can stand before an equals sign and is found there again. -/
structure IsLabel (name : String) : Prop where
  trimmed : Text.Trimmed name.toList
  whole : '=' ∉ name.toList

theorem isLabel_splitName {name name' : String} {formula body : Value} (label : IsLabel name)
    (cut : splitName name formula = (name', body)) : IsLabel name' := by
  unfold splitName at cut
  split at cut
  · next s =>
    split at cut
    · next before after found =>
      obtain ⟨rfl, _⟩ := Prod.mk.inj cut
      obtain ⟨absent, _⟩ := Text.cut?_eq_some found
      refine ⟨?_, ?_⟩
      · rw [String.toList_ofList]
        exact Text.trimmed_trimChars before
      · rw [String.toList_ofList]
        exact fun member => absent (Text.mem_of_mem_trimChars member)
    · obtain ⟨rfl, _⟩ := Prod.mk.inj cut
      exact label
  · obtain ⟨rfl, _⟩ := Prod.mk.inj cut
    exact label

def equation (name formula : String) : String :=
  name ++ " = " ++ formula

theorem splitName_equation {name : String} (label : IsLabel name) (other formula : String) :
    splitName other (.text (equation name formula)) =
      (name, .text (String.ofList (' ' :: formula.toList))) := by
  have letters : (equation name formula).toList =
      (name.toList ++ [' ']) ++ '=' :: ' ' :: formula.toList := by
    simp [equation]
  have absent : '=' ∉ name.toList ++ [' '] := by
    simpa using label.whole
  have trims : Text.trimChars (name.toList ++ [' ']) = name.toList :=
    Text.trimChars_concat (by decide) label.trimmed
  simp only [splitName, letters, Text.cut?_append absent, trims, String.ofList_toList]

/-! ## Coherent models -/

structure Coherent [Machine] (m : Model) : Prop where
  label : IsLabel m.name
  trimmed : Text.Trimmed m.formula.toList
  parsed : Formula.parse m.formula = .ok m.expr
  bound : m.bindings.names = m.variableNames

/-- A formula that is accepted makes any model coherent whose name is in order. -/
theorem coherent_of_formula [Machine] {name name' : String} {formula body : Value} {expr : Expr}
    (label : IsLabel name) (cut : splitName name formula = (name', body))
    (parsed : Formula.parseValue body = .ok expr) (b : Bindings) :
    Coherent ⟨name', Text.trim body.toText, expr, b.refreshed expr.variableNames⟩ := by
  obtain ⟨s, rfl, isRead⟩ := Formula.parseValue_eq_ok_iff.mp parsed
  exact {
    label := isLabel_splitName label cut
    trimmed := by
      rw [Value.toText, Text.trim, String.toList_ofList]
      exact Text.trimmed_trimChars s.toList
    parsed := Formula.parse_trim isRead
    bound := Bindings.names_refreshed (Expr.nodup_variableNames expr) b }

theorem Effect.coherent [Machine] {m next : Model} {call : Call} {result : Except Failure Unit}
    (effect : Effect m call result next) (coherent : Coherent m) : Coherent next := by
  have bound := effect.names coherent.bound
  cases effect with
  | refused => exact coherent
  | formula cut parsed => exact coherent_of_formula coherent.label cut parsed m.bindings
  | assigned _ _ _ => exact { coherent with bound }

theorem Coherent.run [Machine] {m : Model} (coherent : Coherent m) (calls : List Call) :
    Coherent (m.run calls) := by
  induction calls using List.reverseRecOn with
  | nil => exact coherent
  | append_singleton calls call ih =>
    rw [run_concat]
    exact (effect (m.run calls) call).coherent ih

theorem isLabel_blank : IsLabel blank.name := by
  have letters : blank.name.toList = ['f'] := rfl
  have visible : Text.isBlank 'f' = false := by decide
  refine ⟨⟨?_, ?_⟩, ?_⟩
  · simp [letters, visible]
  · simp [letters, visible]
  · simp [letters]

theorem coherent_ofFormula [Machine] {formula : Value} {m : Model}
    (made : (ofFormula formula).result = .ok m) : Coherent m := by
  cases parsed : Formula.parseValue (splitName blank.name formula).2 with
  | error error =>
    rw [ofFormula, Change.from?, setFormula_of_error rfl parsed] at made
    cases made
  | ok expr =>
    rw [ofFormula, (setFormula_of_ok rfl parsed).result_from?] at made
    obtain rfl := Except.ok.inj made
    exact coherent_of_formula isLabel_blank rfl parsed blank.bindings

/-- Some formula makes a model that the calls turn into this one. -/
def Reachable [Machine] (m : Model) : Prop :=
  ∃ formula start calls, (ofFormula formula).result = .ok start ∧ start.run calls = m

theorem Reachable.coherent [Machine] {m : Model} (reachable : Reachable m) : Coherent m := by
  obtain ⟨formula, start, calls, made, rfl⟩ := reachable
  exact (coherent_ofFormula made).run calls

/-! ## The formula once more -/

/-- The model with the usual distribution for every variable. -/
def unassigned (m : Model) : Model :=
  { m with bindings := blank.bindings.refreshed m.expr.variableNames }

namespace Coherent

variable [Machine] {m : Model} (coherent : Coherent m)

include coherent

theorem nodup_names : m.bindings.names.Nodup := by
  rw [coherent.bound]
  exact Expr.nodup_variableNames m.expr

theorem find?_of_mem {name : String} (isVariable : name ∈ m.variableNames) :
    ∃ d, m.bindings.find? name = some d := by
  rw [← coherent.bound] at isVariable
  exact Bindings.exists_find? isVariable

/-- The equation of a model puts its name and its formula into any model. -/
theorem parts_of_equation (other : String) :
    ∃ body, splitName other (.text (equation m.name m.formula)) = (m.name, body) ∧
      Formula.parseValue body = .ok m.expr ∧ Text.trim body.toText = m.formula := by
  have spaced : Formula.AreBlanks [' '] := List.forall_mem_singleton.mpr (by decide)
  refine ⟨_, splitName_equation coherent.label other m.formula, ?_, ?_⟩
  · rw [Formula.parseValue_eq_ok_iff, ← List.singleton_append]
    exact ⟨_, rfl, Formula.parse_blanks spaced coherent.parsed⟩
  · rw [Value.toText, Text.trim, String.toList_ofList,
      Text.trimChars_cons (by decide) coherent.trimmed, String.ofList_toList]

/-- The equation of a model makes the model without its assignments. -/
theorem ofFormula_equation :
    (ofFormula (.text (equation m.name m.formula))).result = .ok m.unassigned := by
  obtain ⟨body, cut, parsed, trims⟩ := coherent.parts_of_equation blank.name
  rw [ofFormula, (setFormula_of_ok cut parsed).result_from?, trims, unassigned]

theorem names_unassigned : m.unassigned.bindings.names = m.bindings.names := by
  rw [unassigned, Bindings.names_refreshed (Expr.nodup_variableNames m.expr), coherent.bound]
  rfl

/-- Assignments to all variables leave nothing of the usual distributions. -/
theorem setAll_unassigned {b : Bindings} (same : b.names = m.bindings.names) :
    m.unassigned.bindings.setAll b = b :=
  Bindings.setAll_of_names (coherent.names_unassigned.trans same.symm)
    (same.symm ▸ coherent.nodup_names)

theorem added_eq_nil : m.bindings.added m.expr.variableNames = [] := by
  have none := Bindings.added_self m.bindings
  rwa [coherent.bound] at none

theorem removed_eq_nil : m.bindings.removed m.expr.variableNames = [] := by
  have none := Bindings.removed_self m.bindings
  rwa [coherent.bound] at none

theorem setFormula_equation :
    setFormula (.text (equation m.name m.formula)) m = (pure (), m) := by
  obtain ⟨body, cut, parsed, trims⟩ := coherent.parts_of_equation m.name
  have refreshed : m.bindings.refreshed m.expr.variableNames = m.bindings := by
    have same := Bindings.refreshed_self coherent.nodup_names
    rwa [coherent.bound] at same
  rw [setFormula, Change.current_bind]
  simp only [cut, parsed]
  rw [Change.liftExcept_ok_bind]
  simp only [coherent.added_eq_nil, coherent.removed_eq_nil, List.isEmpty_nil,
    Bool.and_self, Bool.not_true, Bool.false_eq_true, if_false]
  rw [Change.bind_of_ok (Change.update_apply _ _), trims, refreshed]
  rfl

end Coherent

/-- Whatever calls have made of a model, its variables are bound in order, its formula writes its
expression, its name and its formula are trimmed, and setting them once more changes nothing and
notes nothing. -/
theorem reachable_spec [Machine] {m : Model} (reachable : Reachable m) :
    (m.bindings.names = m.expr.variableNames ∧ m.bindings.names.Nodup ∧
      ∀ name ∈ m.expr.variableNames, ∃ d, m.bindings.get name = .ok d) ∧
    Formula.parse m.formula = .ok m.expr ∧
    ('=' ∉ m.name.toList ∧ Text.Trimmed m.name.toList ∧ Text.Trimmed m.formula.toList) ∧
    setFormula (.text (m.name ++ " = " ++ m.formula)) m = (pure (), m) ∧
    m.bindings.added m.expr.variableNames = [] ∧ m.bindings.removed m.expr.variableNames = [] := by
  have coherent := reachable.coherent
  refine ⟨⟨coherent.bound, coherent.nodup_names, fun name isVariable => ?_⟩, coherent.parsed,
    ⟨coherent.label.whole, coherent.label.trimmed, coherent.trimmed⟩,
    coherent.setFormula_equation, ?_, ?_⟩
  · obtain ⟨d, found⟩ := coherent.find?_of_mem isVariable
    exact ⟨d, by rw [Bindings.get, found]⟩
  · exact coherent.added_eq_nil
  · exact coherent.removed_eq_nil

section

attribute [local instance] Machine.standard

/-- Formulas with blanks around them, a failed change and assignments. -/
def field : Model :=
  (blank.after (.setFormula (.text "\tarea =  width * pi "))).run
    [.assign "width" (.distribution (.lognormal 1 2)), .setFormula (.text "width *"),
      .setFormula (.text " area of field =height* width "),
      .assign "height" (.kind "poisson" [(.text "lambda", .int 3)])]

theorem reachable_field : Reachable field :=
  ⟨.text "\tarea =  width * pi ", _, _, by rfl, rfl⟩

theorem reachable_spec_field :
    Reachable field ∧
    (field.bindings.names = field.expr.variableNames ∧ field.bindings.names.Nodup ∧
      ∀ name ∈ field.expr.variableNames, ∃ d, field.bindings.get name = .ok d) ∧
    Formula.parse field.formula = .ok field.expr ∧
    ('=' ∉ field.name.toList ∧ Text.Trimmed field.name.toList ∧
      Text.Trimmed field.formula.toList) ∧
    setFormula (.text (field.name ++ " = " ++ field.formula)) field = (pure (), field) ∧
    field.bindings.added field.expr.variableNames = [] ∧
    field.bindings.removed field.expr.variableNames = [] :=
  ⟨reachable_field, reachable_spec reachable_field⟩

end

end Reckon.Model
