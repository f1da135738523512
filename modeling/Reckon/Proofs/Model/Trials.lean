import Reckon.Proofs.Formula.Calls
import Reckon.Proofs.Model.Coherence
import Reckon.Proofs.Simulation.Successive

/-!
Trials of the models that calls can make.

The bindings of such a model are those of the variables of its formula, so a trial has a number for
each of them. Main statement: no trial fails for a variable or an operator. Those of a formula with
an unknown function are all discarded, and otherwise those without a finite value.
-/

set_option autoImplicit false

namespace Reckon

open Reckon.Random Reckon.Simulation

namespace Simulation

/-! ## Numbers of a trial -/

theorem names_of_drawValues? {bindings : List (String × Distribution)} {s after : Source}
    {values : List (String × Float)} (first : drawValues? bindings s = some (values, after)) :
    values.map Prod.fst = bindings.map Prod.fst := by
  induction bindings generalizing s values with
  | nil =>
    cases first
    rfl
  | cons binding rest ih =>
    obtain ⟨name, d⟩ := binding
    simp only [drawValues?, Option.bind_eq_bind, Option.bind_eq_some_iff] at first
    obtain ⟨⟨x, middle⟩, _, ⟨others, last⟩, drawnOthers, same⟩ := first
    cases same
    simp [ih drawnOthers]

theorem names_of_drawn {bindings : List (String × Distribution)} {count : Nat} {s : Source}
    {trial : Trial} (member : trial ∈ drawn bindings count s) :
    trial.values.map Prod.fst = bindings.map Prod.fst := by
  induction count generalizing s with
  | zero => cases member
  | succ count ih =>
    simp only [drawn] at member
    split at member
    · cases member
    · next first =>
      rcases List.mem_cons.mp member with rfl | later
      · exact names_of_drawValues? first
      · exact ih later

theorem names_of_record [Machine] {e : Expr} (plain : e.foreigns = []) {stale : Nat → Float}
    {bindings : List (String × Distribution)} {trials : Value} {s : Source} {trial : Trial}
    (member : trial ∈ (observe stale e bindings trials s).record) :
    trial.values.map Prod.fst = bindings.map Prod.fst := by
  rw [record_observe plain, drawnWithin] at member
  split at member
  · cases member
  · split at member
    · cases member
    · exact names_of_drawn member

theorem supplies_environment {values : List (String × Float)} {names : List String}
    (bound : ∀ name ∈ names, name ∈ values.map Prod.fst) :
    Expr.Supplies (environment values) names where
  numbers := environment_real
  covered name member := by
    obtain ⟨entry, isEntry, rfl⟩ := List.mem_map.mp (bound name member)
    have isBound : (values.lookup entry.1).isSome = true :=
      List.lookup_isSome_iff.mpr ⟨entry, isEntry, BEq.rfl⟩
    obtain ⟨x, found⟩ := Option.isSome_iff_exists.mp isBound
    exact ⟨.real x, by rw [environment, found, Option.map_some]⟩

/-! ## Discarded trials -/

def discards [Machine] (e : Expr) (trial : Trial) : Bool :=
  match trialValue e trial.values with
  | .ok none => true
  | _ => false

theorem discards_eq [Machine] {e : Expr} (plain : e.foreigns = []) (trial : Trial) :
    discards e trial = (finiteValue? e trial.values).isNone := by
  rw [discards, trialValue_eq plain]
  cases finiteValue? e trial.values <;> rfl

theorem countP_discards [Machine] {e : Expr} (plain : e.foreigns = []) (record : List Trial) :
    record.countP (discards e) = record.length - (finiteValues e record).length := by
  have kept : (finiteValues e record).length = record.countP fun trial => !discards e trial := by
    rw [finiteValues, List.length_filterMap_eq_countP]
    congr 1
    funext trial
    rw [discards_eq plain, Option.not_isNone]
  have parts := List.length_eq_countP_add_countP (discards e) (l := record)
  simp only [Bool.not_eq_true, Bool.decide_eq_false] at parts
  omega

theorem finiteValues_eq_nil [Machine] {e : Expr} (plain : e.foreigns = []) {record : List Trial}
    (all : ∀ trial ∈ record, discards e trial = true) : finiteValues e record = [] := by
  refine List.filterMap_eq_nil_iff.mpr fun trial member => ?_
  have none := all trial member
  rwa [discards_eq plain, Option.isNone_iff_eq_none] at none

theorem Observed.result_handOn (o : Observed) :
    o.handOn.result = o.outcome.result.map fun summary => (summary, o.source) := by
  obtain ⟨record, ⟨events, result⟩, source⟩ := o
  cases result <;> rfl

end Simulation

namespace Model

/-! ## Models within reach -/

section

variable [Machine] {m : Model} (coherent : Coherent m) {stale : Nat → Float} {trials : Value}
  {s : Source}
  {trial : Trial}

include coherent

theorem Coherent.answers (member : trial ∈ (observe stale m.expr m.bindings trials s).record) :
    Expr.Answers (m.expr.calls.find? Expr.isUnknown) (m.eval (environment trial.values)) := by
  have names := names_of_record (Formula.foreigns_of_parse coherent.parsed) member
  have supplies : Expr.Supplies (environment trial.values) m.expr.occurrences := by
    refine supplies_environment fun name occurs => ?_
    have bound : name ∈ m.bindings.names := by
      rw [coherent.bound]
      exact List.mem_eraseDups.mpr occurs
    rw [names]
    exact bound
  rw [eval, Expr.evaluate_eq_eval]
  exact Expr.answers_of_parse coherent.parsed supplies

theorem Coherent.blames_call
    (member : trial ∈ (observe stale m.expr m.bindings trials s).record) {failure : Failure}
    (failed : m.eval (environment trial.values) = .error failure) :
    ∃ name ∈ m.expr.calls, Expr.isUnknown name = true ∧
      failure = .undefined (.unknownFunction name) := by
  have answers := coherent.answers member
  rw [failed] at answers
  cases found : m.expr.calls.find? Expr.isUnknown with
  | none =>
    rw [found] at answers
    cases answers
  | some name =>
    rw [found] at answers
    cases answers
    exact ⟨name, List.mem_of_find?_eq_some found, List.find?_some found, rfl⟩

theorem Coherent.discards_of_known
    (known : ∀ name ∈ m.expr.calls, Expr.isUnknown name = false)
    (member : trial ∈ (observe stale m.expr m.bindings trials s).record) :
    ∃ x, m.eval (environment trial.values) = .ok x ∧ discards m.expr trial = !x.isFinite := by
  have none : m.expr.calls.find? Expr.isUnknown = none :=
    List.find?_eq_none.mpr fun name called => by simp [known name called]
  have answers := coherent.answers member
  rw [none] at answers
  obtain ⟨x, value⟩ := Expr.answers_none_iff.mp answers
  refine ⟨x, value, ?_⟩
  rw [eval] at value
  simp only [discards, trialValue, value]
  cases x.isFinite <;> rfl

theorem Coherent.discards_of_unknown
    (unknown : ∃ name ∈ m.expr.calls, Expr.isUnknown name = true)
    (member : trial ∈ (observe stale m.expr m.bindings trials s).record) :
    discards m.expr trial = true := by
  obtain ⟨name, found⟩ := Option.isSome_iff_exists.mp (List.find?_isSome.mpr unknown)
  have answers := coherent.answers member
  rw [found] at answers
  have failed := Expr.answers_some_iff.mp answers
  rw [eval] at failed
  simp only [discards, trialValue, failed]

end

section

attribute [local instance] Machine.standard

def ratio : Model := blank.after (.setFormula (.text "ratio = sqrt(x / x)"))

theorem reachable_ratio : Reachable ratio :=
  ⟨.text "ratio = sqrt(x / x)", _, [], rfl, rfl⟩

def nowhere : Model := blank.after (.setFormula (.text "nope(1)"))

end

end Model

end Reckon
