import Reckon.Project.Estimate
import Reckon.Proofs.Model.Coherence
import Reckon.Proofs.Model.Doubles

/-!
Estimates written as records and read back.

Reading a record makes a model of the equation in it, whose variables have the usual distributions,
and then sets them one after the other. As the inputs of a record name exactly the variables of the
formula, nothing of the usual distributions is left. Every parameter is read back as a double, which
changes no number that is drawn.
-/

set_option autoImplicit false

namespace Reckon.Estimate

open Entries

/-! ## The record of an estimate -/

def seedField (e : Estimate) : List (String × Value) :=
  match e.seed with
  | .null => []
  | seed => [("seed", seed)]

def descriptionField (s : String) : List (String × Value) :=
  if s.isEmpty then [] else [("description", .text s)]

/-- The fields of the record of an estimate that is described by a text. -/
def fields (e : Estimate) (s : String) : List (String × Value) :=
  [("mode", .text "estimate"), ("name", e.name), ("function", .text e.model.name),
    ("formula", .text e.model.formula), ("samples", e.samples)] ++ e.seedField
    ++ descriptionField s ++ [("inputs", .list (e.model.bindings.config.map .record))]

section

variable {u : Estimate} {s : String}

theorem config_eq (description : u.description = .text s) :
    u.config = .ok (ofFields (u.fields s)) := by
  rw [config, description, Value.truth, fields, descriptionField]
  cases s.isEmpty <;> rfl

theorem seedField_cases (u : Estimate) :
    u.seed = .null ∧ u.seedField = [] ∨ u.seedField = [("seed", u.seed)] := by
  unfold seedField
  split
  · next absent => exact .inl ⟨absent, rfl⟩
  · exact .inr rfl

theorem descriptionField_cases (s : String) :
    s = "" ∧ descriptionField s = [] ∨ descriptionField s = [("description", .text s)] := by
  unfold descriptionField
  split
  · next empty => exact .inl ⟨by simpa using empty, rfl⟩
  · exact .inr rfl

theorem lookup_seedField {key : String} (other : key ≠ "seed") :
    u.seedField.lookup key = none := by
  have differs : (key == "seed") = false := by simpa using other
  rcases u.seedField_cases with ⟨_, absent⟩ | present
  · rw [absent, List.lookup_nil]
  · simp [present, List.lookup_cons, differs]

theorem lookup_descriptionField {key : String} (other : key ≠ "description") :
    (descriptionField s).lookup key = none := by
  have differs : (key == "description") = false := by simpa using other
  rcases descriptionField_cases s with ⟨_, absent⟩ | present
  · rw [absent, List.lookup_nil]
  · simp [present, List.lookup_cons, differs]

theorem lookup_fields (u : Estimate) (s : String) :
    (u.fields s).lookup "function" = some (.text u.model.name) ∧
    (u.fields s).lookup "formula" = some (.text u.model.formula) ∧
    (u.fields s).lookup "name" = some u.name ∧ (u.fields s).lookup "samples" = some u.samples ∧
    (u.fields s).lookup "inputs" = some (.list (u.model.bindings.config.map .record)) := by
  simp [fields, List.lookup_append, List.lookup_cons, lookup_seedField, lookup_descriptionField]

theorem lookup_seed (u : Estimate) (s : String) :
    ((u.fields s).lookup "seed").getD .null = u.seed := by
  rcases u.seedField_cases with ⟨null, absent⟩ | present
  · simp [fields, List.lookup_append, List.lookup_cons, absent, lookup_descriptionField, null]
  · simp [fields, List.lookup_cons, present]

theorem lookup_description (u : Estimate) (s : String) :
    ((u.fields s).lookup "description").getD (.text "") = .text s := by
  rcases descriptionField_cases s with ⟨rfl, absent⟩ | present
  · simp [fields, List.lookup_append, List.lookup_cons, absent, lookup_seedField]
  · simp [fields, List.lookup_append, List.lookup_cons, present, lookup_seedField]

end

/-! ## The inputs of a record -/

open Change

theorem loadInput_leads [Machine] {m : Model} {name : String} (bound : name ∈ m.bindings.names)
    (d : Distribution) :
    (loadInput (.record ((.text "name", .text name) :: d.config))).Leads m ()
      { m with bindings := m.bindings.set name d.inDoubles } := by
  have named : Entries.get? ((.text "name", .text name) :: d.config) "name" =
      some (.text name) := by
    simp [Entries.get?, Entries.find?]
  obtain ⟨current, found⟩ := Bindings.exists_find? bound
  have isName : (Value.text name).isName = true := by simp [Value.isName, Value.bare]
  unfold loadInput
  refine .bind (leads_liftExcept rfl m) (.bind (leads_current m) ?_)
  simp only [named, Option.getD_some, isName, Bool.not_true, Bool.false_eq_true, if_false, found,
    Option.isNone_some, Distribution.without_name]
  exact .bind (leads_lift d.ofRecord_config m) (Model.leads_assign found rfl)

/-- The inputs of some variables set their distributions one after the other. -/
theorem loadInputs_leads [Machine] {b : Bindings} {e : Estimate}
    (bound : ∀ name ∈ b.names, name ∈ e.model.bindings.names) :
    ((b.config.map Value.record).forM fun item => onModel (loadInput item)).Leads e ()
      { e with model := { e.model with bindings := e.model.bindings.setAll b.inDoubles } } := by
  induction b generalizing e with
  | nil => exact leads_pure () e
  | cons entry b ih =>
    obtain ⟨name, d⟩ := entry
    obtain ⟨boundFirst, boundRest⟩ := List.forall_mem_cons.mp bound
    have first : (onModel (loadInput (.record ((.text "name", .text name) :: d.config)))).Leads e ()
        { e with model := { e.model with bindings := e.model.bindings.set name d.inDoubles } } :=
      (loadInput_leads boundFirst d).within _
    -- a variable that is set stays bound, so the later inputs find theirs
    refine .bind first (ih fun later member => ?_)
    rw [Bindings.names_set_of_mem boundFirst]
    exact boundRest later member

/-! ## Whole records -/

/-- The record holds what an estimate is read from: its settings and its inputs. -/
structure Tells (record : Entries) (u : Estimate) : Prop where
  function : record.get? "function" = some (.text u.model.name)
  formula : record.get? "formula" = some (.text u.model.formula)
  named : record.get? "name" = some u.name
  samples : record.get? "samples" = some u.samples
  seed : (record.get? "seed").getD .null = u.seed
  description : (record.get? "description").getD (.text "") = u.description
  inputs : record.get? "inputs" = some (.list (u.model.bindings.config.map .record))

theorem load_leads_of_tells [Machine] {u : Estimate} {n : Int} {record : Entries}
    (coherent : u.model.Coherent) (samples : u.samples = .int n) (tells : Tells record u)
    (e : Estimate) :
    (load (.record record)).Leads e () { u with model := u.model.inDoubles, result := none } := by
  obtain ⟨model, name, _, seed, description, result⟩ := u
  obtain rfl := samples
  have withFormula : withFormula (.record record) = .ok (record, .text model.formula) := by
    simp only [Estimate.withFormula, Value.bare, tells.formula]
  unfold load
  refine .bind (leads_liftExcept withFormula e) ?_
  simp only [tells.function, tells.named, tells.samples, tells.inputs, tells.seed,
    tells.description, Option.getD_some]
  refine .bind (leads_liftExcept rfl e) (.bind (leads_liftExcept rfl e) ?_)
  refine .bind (leads_lift coherent.ofFormula_equation e) ?_
  refine .bind (leads_update _ _) (.bind (leads_update _ _) (.bind (leads_liftExcept rfl _) ?_))
  refine .bind (leads_update _ _) (.bind (leads_update _ _) (.bind (leads_update _ _) ?_))
  refine .bind (leads_update _ _) (.bind (leads_liftExcept rfl _) ?_)
  -- the inputs find the variables of the formula bound, and no others
  have bound : ∀ name ∈ model.bindings.names, name ∈ model.unassigned.bindings.names := by
    rw [coherent.names_unassigned]
    exact fun _ => id
  have loaded := loadInputs_leads (b := model.bindings)
    (e := ⟨model.unassigned, name, .int n, seed, description, none⟩) bound
  rw [coherent.setAll_unassigned (Bindings.names_inDoubles _)] at loaded
  exact loaded

theorem tells_fields {u : Estimate} {s : String} (description : u.description = .text s) :
    Tells (ofFields (u.fields s)) u := by
  obtain ⟨function, formula, named, samples, inputs⟩ := u.lookup_fields s
  constructor <;> rw [get?_ofFields]
  · exact function
  · exact formula
  · exact named
  · exact samples
  · exact lookup_seed u s
  · rw [lookup_description, description]
  · exact inputs

theorem load_leads [Machine] {u : Estimate} {n : Int} {s : String} (coherent : u.model.Coherent)
    (samples : u.samples = .int n) (description : u.description = .text s) (e : Estimate) :
    (load (.record (ofFields (u.fields s)))).Leads e ()
      { u with model := u.model.inDoubles, result := none } :=
  load_leads_of_tells coherent samples (tells_fields description) e

theorem result_initial [Machine] : ∃ e, initial.result = .ok e := by
  rw [initial, Outcome.result_bind]
  exact ⟨_, rfl⟩

theorem config_inDoubles (u : Estimate) :
    config { u with model := u.model.inDoubles, result := none } = u.config := by
  simp only [config, Model.inDoubles, Bindings.config_inDoubles]

/-- What is calculated depends on the model and the settings, not on the last result. -/
theorem outcome_calculate [Machine] (u : Estimate) :
    (calculate u).1 = (do
      let source ← Random.Source.ofSeed u.seed
      let (summary, _) ← u.model.simulate u.samples source
      return summary) := by
  rw [calculate, current_bind, fst_liftExcept_bind]
  congr 1
  funext source
  rw [fst_lift_bind]
  rfl

/-- Whether parameters are whole numbers or the doubles for them makes no difference. -/
theorem outcome_calculate_inDoubles [Machine] {u v : Estimate}
    (model : v.model.inDoubles = u.model.inDoubles) (samples : v.samples = u.samples)
    (seed : v.seed = u.seed) : (calculate v).1 = (calculate u).1 := by
  have same (source : Random.Source) :
      v.model.simulate u.samples source = u.model.simulate u.samples source := by
    rw [← v.model.simulate_inDoubles, model, u.model.simulate_inDoubles]
  simp only [outcome_calculate, samples, seed, same]

section

attribute [local instance] Machine.standard

/-- An estimate with a seed and without a description, of a model with whole parameters. -/
def fence : Estimate :=
  { model := .field, name := .text "fence", samples := .int (-50), seed := .int 7
    description := .text "", result := none }

end

end Reckon.Estimate
