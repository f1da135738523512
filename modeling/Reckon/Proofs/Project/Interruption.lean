import Reckon.Proofs.Failing
import Reckon.Proofs.Model.Refusal
import Reckon.Proofs.Project.Estimate

/-!
Records that are refused before they are read to their end.

The parts of a record take effect one after the other, so what a refused record leaves behind depends
on how far it was read. Main statement: a record without a formula that can be read leaves the
estimate as it was. One whose count cannot be read leaves the new model and name with the old
settings and the old result. After the count nothing is left of the old estimate: what remains is
what the record describes without its inputs from the refused one on.
-/

set_option autoImplicit false

namespace Reckon.Estimate

open Entries Change

/-! ## The parts of a record -/

def equation [Machine] (record : Entries) (formula : Value) : Except Failure Value := do
  let function ← ((record.get? "function").getD (.text "f")).told
  let body ← formula.told
  return .text (function ++ " = " ++ body)

/-- The record to read an estimate from, and the model of the equation in it. -/
def modelIn [Machine] (config : Value) : Outcome (Entries × Model) := do
  let (record, formula) ← withFormula config
  let whole ← equation record formula
  let model ← Model.ofFormula whole
  return (record, model)

def nameIn (record : Entries) : Value :=
  (record.get? "name").getD usualName

def countIn (record : Entries) : Except Failure Int :=
  ((record.get? "samples").getD (.int Simulation.standardTrials)).toWhole

/-- The estimate that a record describes but for its inputs. -/
def fresh (record : Entries) (model : Model) (count : Int) : Estimate where
  model := model
  name := nameIn record
  samples := .int count
  seed := (record.get? "seed").getD .null
  description := (record.get? "description").getD (.text "")
  result := none

def itemsIn (record : Entries) : Except Failure (List Value) :=
  ((record.get? "inputs").getD (.list [])).items

def loadItems [Machine] (items : List Value) : Change Estimate Unit :=
  items.forM fun item => onModel (loadInput item)

def loadInputs [Machine] (record : Entries) : Change Estimate Unit := do
  let items ← itemsIn record
  loadItems items

def withInputs (record : Entries) (items : List Value) : Entries :=
  record.put (.text "inputs") (.list items)

theorem load_eq [Machine] (config : Value) :
    load config = (do
      let (record, model) ← modelIn config
      update fun e => { e with model, name := nameIn record }
      let count ← countIn record
      update fun _ => fresh record model count
      loadInputs record) := by
  funext e
  unfold load
  rcases told : withFormula config with failure | ⟨record, formula⟩
  · rw [modelIn, told]
    rfl
  · have isModel : modelIn config = (do
        let whole ← equation record formula
        let model ← Model.ofFormula whole
        return (record, model)) := by
      rw [modelIn, told]
      rfl
    rw [isModel, liftExcept_ok_bind, equation]
    dsimp only
    cases ((record.get? "function").getD (.text "f")).told with
    | error failure => rfl
    | ok function =>
      cases formula.told with
      | error failure => rfl
      | ok body =>
        refine Eq.trans ?_ (congrFun (lift_map_bind
          (Model.ofFormula (.text (function ++ " = " ++ body))) (fun model => (record, model)) _)
            e).symm
        refine congrFun (congrArg (fun next => (liftM (Model.ofFormula
          (.text (function ++ " = " ++ body))) : Change Estimate Model) >>= next)
            (funext fun model => funext fun u => ?_)) e
        unfold countIn
        rcases ((record.get? "samples").getD (.int Simulation.standardTrials)).toWhole with
          failure | count <;> rfl

section

variable {config : Value} {record : Entries} {model : Model} {count : Int} {failure : Failure}

/-! ## Before the inputs -/

theorem load_of_unmade [Machine] (unmade : (modelIn config).result = .error failure) (e : Estimate) :
    (load config e).1.result = .error failure ∧ (load config e).2 = e := by
  have whole : modelIn config = ⟨(modelIn config).events, .error failure⟩ := by rw [← unmade]
  rw [load_eq, bind_of_error (by rw [lift_apply, whole])]
  exact ⟨rfl, rfl⟩

/-- With a formula the rest of the record is read for the new model. -/
theorem load_of_made [Machine] (made : (modelIn config).result = .ok (record, model)) (e : Estimate) :
    load config e =
      let rest : Change Estimate Unit := do
        let count ← countIn record
        update fun _ => fresh record model count
        loadInputs record
      let (outcome, left) := rest { e with model, name := nameIn record }
      (⟨(modelIn config).events ++ outcome.events, outcome.result⟩, left) := by
  have whole : modelIn config = ⟨(modelIn config).events, .ok (record, model)⟩ := by rw [← made]
  rw [load_eq, bind_of_ok (by rw [lift_apply, whole])]
  rfl

theorem load_of_uncounted [Machine] (made : (modelIn config).result = .ok (record, model))
    (uncounted : countIn record = .error failure) (e : Estimate) :
    (load config e).1.result = .error failure ∧
      (load config e).2 = { e with model, name := nameIn record } := by
  rw [load_of_made made, uncounted]
  exact ⟨rfl, rfl⟩

theorem load_of_counted [Machine] (made : (modelIn config).result = .ok (record, model))
    (counted : countIn record = .ok count) (e : Estimate) :
    load config e =
      let (outcome, left) := loadInputs record (fresh record model count)
      (⟨(modelIn config).events ++ outcome.events, outcome.result⟩, left) := by
  rw [load_of_made made, counted]
  rfl

/-! ## Refused inputs -/

theorem withFormula_eq_ok {formula : Value} (told : withFormula config = .ok (record, formula)) :
    record.get? "formula" = some formula := by
  unfold withFormula at told
  split at told
  · split at told
    · next found =>
      cases told
      exact found
    · cases told
  · split at told <;> cases told
  · split at told <;> cases told
  · split at told <;> cases told
  · split at told <;> cases told
  · cases told

theorem modelIn_eq_ok [Machine] : (modelIn config).result = .ok (record, model) ↔
    ∃ formula whole, withFormula config = .ok (record, formula) ∧
      equation record formula = .ok whole ∧ (Model.ofFormula whole).result = .ok model := by
  have split : (modelIn config).result = (withFormula config >>= fun found =>
      equation found.1 found.2 >>= fun whole =>
        (Model.ofFormula whole).result >>= fun model => .ok (found.1, model)) := by
    unfold modelIn
    simp only [Outcome.result_bind, Outcome.result_lift]
    rfl
  rw [split, bind_eq_ok]
  constructor
  · rintro ⟨⟨record', formula⟩, found, made⟩
    obtain ⟨whole, told, made⟩ := bind_eq_ok.mp made
    obtain ⟨model', isModel, same⟩ := bind_eq_ok.mp made
    cases same
    exact ⟨formula, whole, found, told, isModel⟩
  · rintro ⟨formula, whole, found, told, isModel⟩
    exact ⟨(record, formula), found,
      bind_eq_ok.mpr ⟨whole, told, bind_eq_ok.mpr ⟨model, isModel, rfl⟩⟩⟩

theorem modelIn_withInputs [Machine] (made : (modelIn config).result = .ok (record, model))
    (items : List Value) :
    (modelIn (.record (withInputs record items))).result = .ok (withInputs record items, model) := by
  obtain ⟨formula, whole, told, isWhole, isModel⟩ := modelIn_eq_ok.mp made
  have found : (withInputs record items).get? "formula" = some formula := by
    rw [withInputs, get?_put, if_neg (by decide), withFormula_eq_ok told]
  have isEquation : equation (withInputs record items) formula = equation record formula := by
    simp [equation, withInputs, get?_put]
  refine modelIn_eq_ok.mpr ⟨formula, whole, ?_, ?_, isModel⟩
  · simp only [withFormula, Value.bare, found]
  · rw [isEquation, isWhole]

theorem countIn_withInputs (record : Entries) (items : List Value) :
    countIn (withInputs record items) = countIn record := by
  rw [countIn, withInputs, get?_put, if_neg (by decide)]
  rfl

theorem fresh_withInputs (record : Entries) (items : List Value) (model : Model) (count : Int) :
    fresh (withInputs record items) model count = fresh record model count := by
  simp [fresh, nameIn, withInputs, get?_put]

theorem itemsIn_withInputs (record : Entries) (items : List Value) :
    itemsIn (withInputs record items) = .ok items := by
  rw [itemsIn, withInputs, get?_put, if_pos rfl]
  rfl

theorem loadInput_atomicAt [Machine] (item : Value) (m : Model) : (loadInput item).AtomicAt m := by
  unfold loadInput
  refine atomicAt_liftExcept_bind fun record => atomicAt_current_bind ?_
  generalize (record.get? "name").getD .null = name
  dsimp only
  split
  · exact atomicAt_throw _
  · cases name with
    | text known =>
      dsimp only
      split
      · exact atomicAt_throw _
      · exact atomicAt_lift_bind fun d _ =>
          @Model.unchanged_of_error m _ (.assign known (.distribution d)) _
    | _ => exact atomicAt_throw _

theorem onModel_leads {change : Change Model Unit} {e : Estimate}
    (leads : change.Leads e.model () model) :
    (onModel change).Leads e () { e with model } :=
  leads.within _

theorem result_loadInputs [Machine] (record : Entries) {e : Estimate} (without : e.result = none) :
    (loadInputs record e).2.result = none := by
  rcases listed : itemsIn record with failure | items
  · rw [loadInputs, listed]
    exact without
  · rw [loadInputs, listed, liftExcept_ok_bind]
    have each (item : Value) (u : Estimate) (kept : u.result = none) :
        (onModel (loadInput item) u).2.result = none := kept
    exact forM_keeps each without

theorem loadInputs_eq_error [Machine] {e : Estimate}
    (refused : (loadInputs record e).1.result = .error failure) :
    ∃ read, (loadItems read).Leads e () (loadInputs record e).2 ∧
      (itemsIn record = .error failure ∧ read = [] ∨
        ∃ item unread, itemsIn record = .ok (read ++ item :: unread) ∧
          (loadInput item (loadInputs record e).2.model).1.result = .error failure) := by
  rcases listed : itemsIn record with failure' | items
  · rw [loadInputs, listed] at refused ⊢
    cases refused
    exact ⟨[], leads_pure () e, .inl ⟨rfl, rfl⟩⟩
  · rw [loadInputs, listed, liftExcept_ok_bind] at refused ⊢
    obtain ⟨read, item, unread, t, rfl, leads, stopped, left⟩ := forM_eq_error refused
    have unchanged : (loadInput item t.model).2 = t.model :=
      loadInput_atomicAt item t.model failure stopped
    have kept : (loadItems (read ++ item :: unread) e).2 = t := by
      rw [loadItems, left]
      change { t with model := (loadInput item t.model).2 } = t
      rw [unchanged]
    rw [kept]
    exact ⟨read, leads, .inr ⟨item, unread, rfl, stopped⟩⟩

theorem load_withInputs_leads [Machine]
    (made : (modelIn config).result = .ok (record, model))
    (counted : countIn record = .ok count) {items : List Value} {u : Estimate}
    (leads : (loadItems items).Leads (fresh record model count) () u) (e : Estimate) :
    (load (.record (withInputs record items))).Leads e () u := by
  obtain ⟨more, done⟩ := leads
  have countedAgain : countIn (withInputs record items) = .ok count := by
    rw [countIn_withInputs, counted]
  refine ⟨(modelIn (.record (withInputs record items))).events ++ more, ?_⟩
  rw [load_of_counted (modelIn_withInputs made items) countedAgain, fresh_withInputs, loadInputs,
    itemsIn_withInputs, liftExcept_ok_bind, done]

end

/-- A record without a formula that can be read changes nothing, and one without a count only the
model and the name: then the result, if there is one, is still that of the old model. Otherwise what
was there before does not matter and there is no result, and if the record is refused, then the
estimate is what the record describes whose inputs end before the first one that is refused. -/
theorem load_interrupted [Machine] (config : Value) (e : Estimate) :
    (∀ failure, (modelIn config).result = .error failure →
      (load config e).1.result = .error failure ∧ (load config e).2 = e) ∧
    ∀ record model, (modelIn config).result = .ok (record, model) →
      (∀ failure, countIn record = .error failure →
        (load config e).1.result = .error failure ∧
          (load config e).2 = { e with model, name := nameIn record }) ∧
      ∀ count, countIn record = .ok count →
        (∀ e', load config e' = load config e) ∧ (load config e).2.result = none ∧
        ∀ failure, (load config e).1.result = .error failure →
          ∃ read, (∀ e', (load (.record (withInputs record read))).Leads e' () (load config e).2) ∧
            (itemsIn record = .error failure ∧ read = [] ∨
              ∃ item unread, itemsIn record = .ok (read ++ item :: unread) ∧
                (loadInput item (load config e).2.model).1.result = .error failure) := by
  refine ⟨fun failure unmade => load_of_unmade unmade e, fun record model made => ?_⟩
  refine ⟨fun failure uncounted => load_of_uncounted made uncounted e, fun count counted => ?_⟩
  refine ⟨fun e' => ?_, ?_, fun failure failed => ?_⟩
  · rw [load_of_counted made counted, load_of_counted made counted]
  · rw [load_of_counted made counted]
    exact result_loadInputs record rfl
  · rw [load_of_counted made counted] at failed ⊢
    obtain ⟨read, leads, refused⟩ := loadInputs_eq_error failed
    exact ⟨read, load_withInputs_leads made counted leads, refused⟩

/-! ## A fence with a result -/

section

attribute [local instance] Machine.standard


def measured : Estimate :=
  { fence with
    result := some
      { samples := [6], mean := 6, median := 6, p5 := 6, p10 := 6, p90 := 6, p95 := 6
        histogram := ⟨6, 6, [1]⟩, trials := 1 } }

def lengthRecord (further : List (String × Value)) : Entries :=
  ofFields (("formula", .text "width + height") :: further)

def lengthModel : Model :=
  Model.blank.after (.setFormula (.text "f = width + height"))

theorem modelIn_lengthRecord {further : List (String × Value)}
    (usual : further.lookup "function" = none) :
    (modelIn (.record (lengthRecord further))).result = .ok (lengthRecord further, lengthModel) := by
  have field (key : String) : (lengthRecord further).get? key = _ := get?_ofFields _ key
  refine modelIn_eq_ok.mpr ⟨.text "width + height", .text "f = width + height", ?_, ?_, rfl⟩
  · simp only [withFormula, Value.bare, field]
    rfl
  · have function : (lengthRecord further).get? "function" = none := by
      rw [field, List.lookup_cons]
      exact usual
    rw [equation, function]
    rfl

def countless : Entries :=
  lengthRecord [("samples", .null)]

theorem modelIn_countless :
    (modelIn (.record countless)).result = .ok (countless, lengthModel) :=
  modelIn_lengthRecord rfl

theorem countIn_countless : countIn countless = .error (.unfit .kind) := by
  have absent : countless.get? "samples" = some .null := by
    rw [countless, lengthRecord, get?_ofFields]
    rfl
  rw [countIn, absent]
  rfl

def sideInput : Value :=
  .record ((.text "name", .text "width") :: (Distribution.uniform 1 2).config)

def halfRead : Entries :=
  lengthRecord [("inputs", .list [sideInput, .null])]

theorem modelIn_halfRead : (modelIn (.record halfRead)).result = .ok (halfRead, lengthModel) :=
  modelIn_lengthRecord rfl

theorem countIn_halfRead : countIn halfRead = .ok Simulation.standardTrials := by
  have absent : halfRead.get? "samples" = none := get?_ofFields _ "samples"
  rw [countIn, absent]
  rfl

theorem result_load_halfRead (e : Estimate) :
    (load (.record halfRead) e).1.result = .error (.unfit .kind) := by
  have listed : itemsIn halfRead = .ok [sideInput, .null] := by
    have given : halfRead.get? "inputs" = some (.list [sideInput, .null]) :=
      get?_ofFields _ "inputs"
    rw [itemsIn, given]
    rfl
  have bound : "width" ∈ lengthModel.bindings.names := by decide +kernel
  have side : (onModel (loadInput sideInput)).Leads
      (fresh halfRead lengthModel Simulation.standardTrials) () _ :=
    onModel_leads (loadInput_leads bound (.uniform 1 2))
  obtain ⟨events, done⟩ := side
  rw [load_of_counted modelIn_halfRead countIn_halfRead, loadInputs, listed, liftExcept_ok_bind]
  change ((onModel (loadInput sideInput) >>= fun _ => loadItems [.null]) _).1.result = _
  rw [bind_of_ok done]
  rfl

theorem load_interrupted_measured :
    ((modelIn (.record [])).result = .error (.unsuitable .noFormula) ∧
      (load (.record []) measured).2 = measured) ∧
    ((modelIn (.record countless)).result = .ok (countless, lengthModel) ∧
      countIn countless = .error (.unfit .kind) ∧
      (load (.record countless) measured).2 =
        { measured with model := lengthModel, name := nameIn countless }) ∧
    (modelIn (.record halfRead)).result = .ok (halfRead, lengthModel) ∧
    countIn halfRead = .ok Simulation.standardTrials ∧
    (load (.record halfRead) measured).1.result = .error (.unfit .kind) ∧
    (load (.record halfRead) measured).2.result = none ∧
    ∃ read, ∀ e', (load (.record (withInputs halfRead read))).Leads e' ()
      (load (.record halfRead) measured).2 := by
  have counted := (load_interrupted (.record halfRead) measured).2 _ _ modelIn_halfRead |>.2 _
    countIn_halfRead
  obtain ⟨read, leads, _⟩ := counted.2.2 _ (result_load_halfRead measured)
  exact ⟨⟨rfl, ((load_interrupted (.record []) measured).1 _ rfl).2⟩,
    ⟨modelIn_countless, countIn_countless,
      (((load_interrupted (.record countless) measured).2 _ _ modelIn_countless).1 _
        countIn_countless).2⟩,
    modelIn_halfRead, countIn_halfRead, result_load_halfRead measured, counted.2.1, read, leads⟩

/-- The record of the length is refused, but the estimate has its formula then, together with the
result for the area. -/
theorem load_countless :
    (load (.record countless) measured).1.result = .error (.unfit .kind) ∧
      (load (.record countless) measured).2.model.formula ≠ measured.model.formula ∧
      (load (.record countless) measured).2.result = measured.result ∧
      measured.result.isSome = true ∧ (load (.record countless) measured).2 ≠ measured := by
  obtain ⟨refused, left⟩ := load_of_uncounted modelIn_countless countIn_countless measured
  have formula : lengthModel.formula ≠ measured.model.formula := by decide +kernel
  rw [left]
  refine ⟨refused, formula, rfl, rfl, fun same => formula ?_⟩
  rw [← same]

end

end Reckon.Estimate
