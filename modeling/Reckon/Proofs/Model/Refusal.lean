import Reckon.Proofs.Model.Coherence
import Reckon.Proofs.Value.Told

/-!
Calls that a model refuses.

A call writes to the model in its last step only, so whatever refuses it finds the model as it was.
What is refused for which reason is read off the formula in the text, the variables of the model and
the names of the parameters.
-/

set_option autoImplicit false

namespace Reckon.Model

/-- The first text holds the second one as its formula: what follows its first equals sign, or all
of it. -/
inductive FormulaIn : String → String → Prop where
  | bare {s : String} : '=' ∉ s.toList → FormulaIn s s
  | named {name s : String} : '=' ∉ name.toList → FormulaIn (name ++ "=" ++ s) s

theorem FormulaIn.splitName {text s : String} (formula : FormulaIn text s) (name : String) :
    ∃ name', splitName name (.text text) = (name', .text s) := by
  cases formula with
  | bare whole =>
    cases found : Text.cut? '=' text.toList with
    | none => exact ⟨name, by simp only [Model.splitName, found]⟩
    | some parts =>
      obtain ⟨_, letters⟩ := Text.cut?_eq_some found
      refine absurd ?_ whole
      rw [letters]
      exact List.mem_append_right _ List.mem_cons_self
  | @named label s whole =>
    have letters : (label ++ "=" ++ s).toList = label.toList ++ '=' :: s.toList := by simp
    refine ⟨Text.trim label, ?_⟩
    simp only [Model.splitName, letters, Text.cut?_append whole, String.ofList_toList]
    rfl

variable {m : Model}

theorem Effect.eq_of_error [Machine] {call : Call} {failure : Failure} {next : Model}
    (effect : Effect m call (.error failure) next) : next = m := by
  cases effect with
  | refused => rfl

theorem unchanged_of_error [Machine] {call : Call} {failure : Failure}
    (refused : (call.change m).1.result = .error failure) : (call.change m).2 = m := by
  have effect := effect m call
  rw [refused] at effect
  exact effect.eq_of_error

theorem setFormula_refused [Machine] {text s : String} {error : Malformed}
    (formula : FormulaIn text s) (malformed : Formula.parse s = .error error) :
    setFormula (.text text) m = (.fail (.malformed error), m) := by
  obtain ⟨name', cut⟩ := formula.splitName m.name
  exact setFormula_of_error cut (by rw [Formula.parseValue, malformed])

theorem setFormula_notText [Machine] {formula : Value} (other : ∀ s, formula ≠ .text s) :
    setFormula formula m = (.fail (formula.naming (.malformed ⟨0, .notText formula⟩)), m) := by
  cases formula with
  | text s => exact absurd rfl (other s)
  | _ => exact setFormula_of_error rfl rfl

theorem exists_error_of_unwritten [Machine] {s : String} (unwritten : ∀ e, ¬Formula.Writes s e) :
    ∃ error, Formula.parse s = .error error := by
  cases parsed : Formula.parse s with
  | ok e => exact absurd (Formula.writes_of_parseWithin parsed) (unwritten e)
  | error error => exact ⟨error, rfl⟩

theorem Coherent.find?_of_notMem [Machine] (coherent : Coherent m) {name : String}
    (outside : name ∉ m.expr.variableNames) : m.bindings.find? name = none := by
  rw [Bindings.find?_eq_none_iff, coherent.bound]
  exact outside

/-! ## Arguments -/

namespace Arguments

def named? (given : Arguments) : Option String :=
  (given.placed.map Prod.fst).or given.name

structure Once (given : Arguments) : Prop where
  model : given.parameters.get? "self" = none
  name : given.placed = none ∨ given.name = none
  dist : (given.placed.bind Prod.snd).isNone ∨ given.dist.isNone

variable {given : Arguments} {name : String}

theorem bound_of_once (once : given.Once) (named : given.named? = some name) :
    ∃ argument, given.bound = .ok (name, argument) := by
  obtain ⟨placed, name', dist, parameters, own⟩ := given
  obtain ⟨model, onceName, onceDist⟩ := once
  dsimp only at model onceName onceDist
  simp only [bound, model, Option.isSome_none, Bool.false_eq_true, if_false]
  cases placed with
  | none =>
    obtain rfl : name' = some name := by simpa [named?] using named
    exact ⟨dist, rfl⟩
  | some first =>
    obtain ⟨first, argument⟩ := first
    obtain rfl : first = name := by simpa [named?] using named
    obtain rfl : name' = none := by simpa using onceName
    cases argument with
    | none => cases dist <;> exact ⟨_, rfl⟩
    | some argument =>
      obtain rfl : dist = none := by simpa using onceDist
      exact ⟨_, rfl⟩

theorem bound_of_twice (twice : ¬given.Once) : given.bound = .error (.unfit .reservedName) := by
  obtain ⟨placed, name', dist, parameters, own⟩ := given
  cases model : parameters.get? "self" with
  | some value => simp [bound, model]
  | none =>
    simp only [bound, model, Option.isSome_none, Bool.false_eq_true, if_false]
    -- what is placed is given once more, or the arguments are in order
    rcases placed with _ | ⟨first, _ | argument⟩ <;> rcases name' with _ | name' <;>
      rcases dist with _ | dist <;> first | rfl | exact absurd ⟨model, by simp, by simp⟩ twice

/-- Arguments with places and other parameters are those of an assignment by places. -/
theorem assignNamed_eq [Machine] (name : String) (value : Value) (parameters : Entries)
    (own : parameters.get? "name" = none ∧ parameters.get? "dist" = none) :
    assignNamed name value parameters =
      assignWith ⟨some (name, some (.value value)), none, none, parameters, own⟩ := by
  obtain ⟨noName, noDist⟩ := own
  cases model : parameters.get? "self" <;>
    simp [assignNamed, assignWith, bound, keptNames, noName, noDist, model] <;> rfl

end Arguments

section

attribute [local instance] Machine.standard

end

end Reckon.Model
