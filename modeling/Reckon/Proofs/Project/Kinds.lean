import Reckon.Command.Run
import Reckon.Proofs.Distribution.Acceptance
import Reckon.Proofs.Failing
import Reckon.Proofs.Project.Interruption
import Reckon.Proofs.Value.Depth

/-!
Setup documents and what they are refused for.

Every failure says which value is unsuitable, unless a value is of a kind that its place does not
take, or is nested too deeply for the message that names it. Main statement: a document without such
values is loaded, describes no project or is refused with a message.
-/

set_option autoImplicit false

namespace Reckon

/-- Failures for values that are unsuitable; unless everything `fits`, also for their kind, and for
values `depth` deep that are not told. -/
def Due [Machine] (fits : Bool) (depth : Nat) : Failure → Prop
  | .malformed _ | .unsuitable _ => True
  | .unfit .kind | .overflow => fits = false
  | .tooNested => Machine.valueDepth < depth
  | _ => False

section

variable [Machine] {fits fits' : Bool} {depth depth' : Nat} {failure : Failure}

theorem Due.mono (due : Due fits depth failure) (part : fits' = true → fits = true)
    (le : depth ≤ depth') : Due fits' depth' failure := by
  have misfit : fits = false → fits' = false := by
    intro misfit
    by_contra fits'
    rw [part (by simpa using fits')] at misfit
    cases misfit
  unfold Due at due ⊢
  split at due
  · trivial
  · trivial
  · exact misfit due
  · exact misfit due
  · exact Nat.lt_of_lt_of_le due le
  · exact due.elim

/-- A message that names a value is due if it would be without the name. -/
theorem Due.naming {v : Value} (due : Due fits depth failure) (le : v.depth ≤ depth) :
    Due fits depth (v.naming failure) := by
  rcases v.naming_cases failure with same | unwritten | ⟨nested, deep⟩
  · rwa [same]
  · rw [unwritten]
    trivial
  · rw [nested]
    exact Nat.lt_of_lt_of_le deep le

theorem FailsFor.due_mono {α : Type} {result : Except Failure α}
    (fails : FailsFor (Due fits depth) result) (part : fits' = true → fits = true)
    (le : depth ≤ depth') : FailsFor (Due fits' depth') result :=
  fails.mono fun _ due => due.mono part le

theorem FailsFor.due_of_imp {α : Type} {result : Except Failure α}
    (fails : FailsFor (Due fits 0) result) (part : fits' = true → fits = true) :
    FailsFor (Due fits' depth) result :=
  fails.due_mono part (Nat.zero_le depth)

end

/-! ## Values -/

namespace Value

/-- What a count may be: not necessarily one that says how many. -/
def isCountable : Value → Bool
  | int _ | bool _ | text _ | bytes _ => true
  | real x => !x.isInf
  | _ => false

def isIterable (v : Value) : Bool :=
  match v.bare with
  | list _ | tuple _ | array _ | set _ | record _ | text _ | bytes _ => true
  | _ => false

/-- What may stand for a pair: if it has two parts, the first one can be a name. -/
def isPairLike (v : Value) : Bool :=
  match v.items with
  | .error _ => false
  | .ok [key, _] => key.isName
  | .ok _ => true

def isRecordLike (v : Value) : Bool :=
  match v.bare with
  | record _ => true
  | value =>
    match value.items with
    | .error _ => false
    | .ok items => items.all isPairLike

def isText : Value → Bool
  | text _ => true
  | _ => false

/-- What a parameter may be: no whole number beyond the doubles. -/
def isWithinDoubles : Value → Bool
  | int n => (Binary.ofInt? n).isSome
  | _ => true

theorem wholeOf_due [Machine] (written : Value) (s : String) :
    FailsFor (Due true 0) (wholeOf 10 written s) := by
  unfold wholeOf
  split
  · exact .ok _
  · exact .error trivial
  · exact .error trivial

theorem toWhole_due [Machine] (v : Value) : FailsFor (Due v.isCountable 0) v.toWhole := by
  cases v with
  | int n => exact .ok n
  | bool b => exact .ok _
  | text s => exact wholeOf_due _ s
  | bytes content => exact wholeOf_due _ _
  | real x =>
    simp only [toWhole, Scalar.truncated]
    split
    · exact .error trivial
    · split
      · next infinite =>
        have misfit : isCountable (.real x) = false := by simp [isCountable, infinite]
        exact .error misfit
      · exact .ok _
  | _ => exact .error rfl

theorem not_isWithinDoubles {v : Value} (failed : v.toReal = .error .overflow) :
    v.isWithinDoubles = false := by
  obtain ⟨n, rfl, beyond⟩ := toReal_eq_overflow failed
  simp [isWithinDoubles, beyond]

theorem items_error {v : Value} {failure : Failure} (failed : v.items = .error failure) :
    failure = .unfit .kind ∧ v.isIterable = false := by
  induction v using bare.induct with
  | case1 label value ih => exact ih failed
  | case2 value unlabelled =>
    cases value with
    | shared label value => exact absurd rfl (unlabelled label value)
    | list | tuple | array | set | record | text | bytes => cases failed
    | _ =>
      cases failed
      exact ⟨rfl, rfl⟩

theorem items_due [Machine] (v : Value) : FailsFor (Due v.isIterable 0) v.items := by
  intro failure failed
  obtain ⟨rfl, notIterable⟩ := items_error failed
  exact notIterable

theorem pairs_due [Machine] (index : Nat) (items : List Value) :
    FailsFor (Due (items.all isPairLike) 0) (pairs index items) := by
  induction items generalizing index with
  | nil => exact .ok _
  | cons item items ih =>
    have rest : FailsFor (Due ((item :: items).all isPairLike) 0) (pairs (index + 1) items) := by
      refine (ih (index + 1)).due_of_imp fun all => ?_
      rw [List.all_cons, Bool.and_eq_true] at all
      exact all.2
    have misfit (notPair : item.isPairLike = false) : (item :: items).all isPairLike = false := by
      rw [List.all_cons, notPair, Bool.false_and]
    rw [pairs]
    split
    · next failure failed =>
      obtain ⟨rfl, _⟩ := items_error failed
      exact .error (misfit (by simp [isPairLike, failed]))
    · next key value parts =>
      split
      · next notName => exact .error (misfit (by simpa [isPairLike, parts] using notName))
      · exact rest.bind fun _ _ => .ok _
    · exact .error trivial

theorem toRecord_due [Machine] (v : Value) : FailsFor (Due v.isRecordLike 0) v.toRecord := by
  have ofItems (value : Value) : FailsFor (Due (match value.items with
      | .error _ => false
      | .ok items => items.all isPairLike) 0) (do
        let items ← value.items
        let pairs ← pairs 0 items
        return Entries.ofPairs pairs) := by
    cases parts : value.items with
    | error failure =>
      obtain ⟨rfl, _⟩ := items_error parts
      exact .error rfl
    | ok items => exact (pairs_due 0 items).bind fun _ _ => .ok _
  unfold toRecord isRecordLike
  cases v.bare with
  | record entries => exact .ok _
  | _ => exact ofItems _

theorem told_due [Machine] (v : Value) : FailsFor (Due true v.depth) v.told := by
  intro failure failed
  rcases untold_of_trouble? (told_eq_error_iff.mp failed) with rfl | ⟨rfl, deep⟩
  · trivial
  · exact deep

end Value

/-! ## Distributions -/

namespace Distribution

/-- A name, and parameters that are named by texts and not too large. -/
def fits (kind : Value) (parameters : Entries) : Bool :=
  kind.isName && parameters.all fun (key, value) => key.isText && value.isWithinDoubles

def recordFits (record : Entries) : Bool :=
  fits ((record.get? "type").getD (.text "uniform")) (record.without "type")

section

variable {parameters : Entries}

def Unkept (parameters : Entries) : Prop := ∀ entry ∈ parameters, entry.1 ≠ .text "name"

theorem parameterName_due [Machine] {key : Value} (unkept : key ≠ .text "name") :
    FailsFor (Due key.isText 0) (parameterName key) := by
  unfold parameterName
  split
  · exact absurd rfl unkept
  · exact .ok _
  · next notText =>
    have misfit : key.isText = false := by
      cases key with
      | text s => exact absurd rfl (notText s)
      | _ => rfl
    exact .error misfit

theorem named_due [Machine] (unkept : Unkept parameters) :
    FailsFor (Due (parameters.all fun entry => entry.1.isText) 0) (named parameters) := by
  induction parameters with
  | nil => exact .ok _
  | cons entry parameters ih =>
    obtain ⟨unkeptFirst, unkeptRest⟩ := List.forall_mem_cons.mp unkept
    have both : ((entry :: parameters).all fun entry => entry.1.isText) = true →
        entry.1.isText = true ∧ (parameters.all fun entry => entry.1.isText) = true := by
      rw [List.all_cons, Bool.and_eq_true]
      exact id
    have first := (parameterName_due unkeptFirst).due_mono (fun all => (both all).1) le_rfl
    have rest := (ih unkeptRest).due_mono (fun all => (both all).2) le_rfl
    rw [named_cons]
    apply first.bind
    intro _ _
    exact rest.bind fun _ _ => .ok _

theorem kindOf_due [Machine] (kind : Value) :
    FailsFor (Due kind.isName kind.depth) (kindOf kind) := by
  have unknown (reason : Unsuitable) :
      Due kind.isName kind.depth (kind.naming (.unsuitable reason)) := Due.naming trivial le_rfl
  unfold kindOf
  split
  · next notName =>
    have misfit : kind.isName = false := by simpa using notName
    exact .error misfit
  · split
    · split
      · exact .ok _
      · exact .error (unknown _)
    · exact .error (unknown _)

theorem ofParameters_due [Machine] (kind : Kind) (parameters : List (String × Value)) :
    FailsFor (Due (parameters.all fun parameter => parameter.2.isWithinDoubles)
      (Value.record (Entries.ofFields parameters)).depth) (ofParameters kind parameters) := by
  intro failure failed
  rcases ofParameters_error failed with
    ⟨why, rfl⟩ | ⟨rfl, _, _, value, given, beyond⟩ | ⟨rfl, deep⟩
  · trivial
  · -- a value that is too large was given with the parameters
    refine (Bool.not_eq_true _).mp fun fit => ?_
    obtain ⟨field, member, _, rfl⟩ := mem_of_given? given
    have within := List.all_eq_true.mp fit field member
    rw [Value.not_isWithinDoubles beyond] at within
    cases within
  · exact Nat.lt_of_lt_of_le deep (depth_counted_le parameters)

theorem values_named {parameters : Entries} {named' : List (String × Value)}
    (done : named parameters = .ok named') :
    named'.map Prod.snd = parameters.map Prod.snd := by
  induction parameters generalizing named' with
  | nil =>
    cases done
    rfl
  | cons entry parameters ih =>
    obtain ⟨key, value⟩ := entry
    rw [named_cons] at done
    obtain ⟨name, _, done⟩ := bind_eq_ok.mp done
    obtain ⟨rest, others, done⟩ := bind_eq_ok.mp done
    cases done
    rw [List.map_cons, ih others, List.map_cons]

theorem depth_named_le {parameters : Entries} {given : List (String × Value)}
    (done : named parameters = .ok given) :
    (Value.record (Entries.ofFields given)).depth ≤ (Value.record parameters).depth := by
  rw [Value.depth, Value.depth]
  refine Nat.succ_le_succ (Value.depthIn_le_iff.mpr fun entry member => ?_)
  obtain ⟨field, isField, rfl⟩ := List.mem_map.mp member
  have same : field.2 ∈ parameters.map Prod.snd := by
    rw [← values_named done]
    exact List.mem_map_of_mem isField
  obtain ⟨origin, isOrigin, same⟩ := List.mem_map.mp same
  exact ⟨Nat.zero_le _, same ▸ (Value.depthIn_le_iff.mp le_rfl origin isOrigin).2⟩

theorem make_due [Machine] {kind : Value} {depth : Nat} (unkept : Unkept parameters)
    (shallowKind : kind.depth ≤ depth) (shallow : (Value.record parameters).depth ≤ depth) :
    FailsFor (Due (fits kind parameters) depth) (make kind parameters).result := by
  have all : fits kind parameters = true → kind.isName = true ∧
      (parameters.all fun entry => entry.1.isText) = true ∧
      (parameters.all fun entry => entry.2.isWithinDoubles) = true := by
    simp only [fits, Bool.and_eq_true, List.all_eq_true]
    intro ⟨isName, each⟩
    exact ⟨isName, fun entry member => (each entry member).1,
      fun entry member => (each entry member).2⟩
  unfold make
  apply Outcome.failsFor_lift_bind
  · exact (named_due unkept).due_of_imp fun fit => (all fit).2.1
  · intro given isGiven
    apply Outcome.failsFor_lift_bind
    · exact (kindOf_due kind).due_mono (fun fit => (all fit).1) shallowKind
    · intro kind _
      apply Outcome.failsFor_lift_bind
      · refine (ofParameters_due kind given).due_mono (fun fit => ?_)
          ((depth_named_le isGiven).trans shallow)
        have within : (given.map Prod.snd).all Value.isWithinDoubles = true := by
          rw [values_named isGiven, List.all_map]
          exact (all fit).2.2
        rwa [List.all_map] at within
      · intro d _
        apply Outcome.failsFor_bind
        · rw [result_checkPercentiles]
          exact .ok _
        · exact fun _ _ => .ok _

theorem ofRecord_due [Machine] {record : Entries} (unkept : Unkept record) :
    FailsFor (Due (recordFits record) (Value.record record).depth) (ofRecord record).result := by
  have shallowKind : ((record.get? "type").getD (.text "uniform")).depth < _ :=
    Value.depth_getD_lt record "type" rfl
  refine make_due (fun entry member => ?_) shallowKind.le (Value.depth_without_le record "type")
  exact unkept entry (List.mem_of_mem_filter member)

end

end Distribution

/-! ## Models -/

theorem Formula.parseValue_due [Machine] (formula : Value) :
    FailsFor (Due true formula.depth) (parseValue formula) := by
  unfold parseValue
  split
  · split
    · exact .ok _
    · exact .error trivial
  · exact .error (Due.naming trivial le_rfl)

theorem Model.depth_splitName (name : String) (formula : Value) :
    (splitName name formula).2.depth = formula.depth := by
  unfold splitName
  split
  · split <;> rfl
  · rfl

theorem Model.setFormula_due [Machine] (formula : Value) (m : Model) :
    FailsFor (Due true formula.depth) (setFormula formula m).1.result := by
  have due := Formula.parseValue_due (splitName m.name formula).2
  rw [depth_splitName] at due
  cases parsed : Formula.parseValue (splitName m.name formula).2 with
  | error failure =>
    rw [setFormula_of_error rfl parsed]
    exact .error (due failure parsed)
  | ok expr =>
    obtain ⟨events, done⟩ := setFormula_of_ok rfl parsed
    rw [done]
    exact .ok _

theorem Model.ofFormula_due [Machine] (formula : Value) :
    FailsFor (Due true formula.depth) (ofFormula formula).result :=
  Change.failsFor_from? (setFormula_due formula blank)

/-! ## Estimates -/

namespace Estimate

open Change

def inputFits (item : Value) : Bool :=
  item.isRecordLike &&
    match item.toRecord with
    | .error _ => true
    | .ok record =>
      ((record.get? "name").getD .null).isName && Distribution.recordFits (record.without "name")

def recordFits (record : Entries) : Bool :=
  let inputs := (record.get? "inputs").getD (.list [])
  ((record.get? "samples").getD (.int Simulation.standardTrials)).isCountable &&
    inputs.isIterable &&
    match inputs.items with
    | .error _ => true
    | .ok items => items.all inputFits

theorem parts_of_recordFits {record : Entries} (fits : recordFits record = true) :
    ((record.get? "samples").getD (.int Simulation.standardTrials)).isCountable = true ∧
    ((record.get? "inputs").getD (.list [])).isIterable = true ∧
    ∀ items, ((record.get? "inputs").getD (.list [])).items = .ok items →
      ∀ item ∈ items, inputFits item = true := by
  simp only [recordFits, Bool.and_eq_true] at fits
  refine ⟨fits.1.1, fits.1.2, fun items isItems => ?_⟩
  rw [isItems] at fits
  exact List.all_eq_true.mp fits.2

theorem depth_lt_of_mem_inputs {record : Entries} {items : List Value} {item : Value}
    (isItems : ((record.get? "inputs").getD (.list [])).items = .ok items) (member : item ∈ items) :
    item.depth < (Value.record record).depth := by
  cases listed : record.get? "inputs" with
  | none =>
    rw [listed] at isItems
    cases isItems
    cases member
  | some inputs =>
    rw [listed] at isItems
    exact (Value.depth_le_of_mem_items isItems member).trans_lt (Value.depth_lt_of_get? listed)

theorem unkept_without (record : Entries) : Distribution.Unkept (record.without "name") := by
  intro entry member isName
  have other := (List.mem_filter.mp member).2
  simp [isName] at other

theorem loadInput_due [Machine] {item : Value} {depth : Nat} (shallow : item.depth < depth)
    (m : Model) : FailsFor (Due (inputFits item) depth) (loadInput item m).1.result := by
  unfold loadInput
  apply failsFor_liftExcept_bind
  · refine item.toRecord_due.due_of_imp fun fit => ?_
    rw [inputFits, Bool.and_eq_true] at fit
    exact fit.1
  · intro record isRecord
    have fits : inputFits item = true → ((record.get? "name").getD .null).isName = true ∧
        Distribution.recordFits (record.without "name") = true := by
      simp only [inputFits, isRecord, Bool.and_eq_true]
      exact fun fit => fit.2
    have shallowRecord : (Value.record record).depth ≤ depth :=
      (Value.depth_toRecord_le isRecord).trans shallow
    have shallowName : ((record.get? "name").getD .null).depth ≤ depth :=
      (Value.depth_getD_lt record "name" rfl).le.trans shallowRecord
    rw [current_bind]
    generalize (record.get? "name").getD .null = name at *
    dsimp only
    split
    · next notName =>
      have misfit : inputFits item = false := by
        by_contra fit
        rw [(fits (by simpa using fit)).1] at notName
        cases notName
      exact .error misfit
    · cases name with
      | text known =>
        -- only a variable of the formula gets as far as its distribution
        dsimp only
        split
        · exact .error (Due.naming trivial shallowName)
        · next bound =>
          obtain ⟨current, found⟩ := Option.ne_none_iff_exists'.mp (by simpa using bound)
          apply failsFor_lift_bind
          · exact (Distribution.ofRecord_due (unkept_without record)).due_mono
              (fun fit => (fits fit).2)
              ((Value.depth_without_le record "name").trans shallowRecord)
          · intro d _
            rw [Model.assign_of_some found]
            exact .ok _
      | _ => exact .error (Due.naming trivial shallowName)

section

variable {config : Value} {record : Entries}

theorem withFormula_due [Machine] (isRecord : config.bare = .record record) :
    FailsFor (Due true 0) (withFormula config) := by
  unfold withFormula
  rw [isRecord]
  dsimp only
  split
  · exact .ok _
  · exact .error trivial

theorem withFormula_eq_ok_record (isRecord : config.bare = .record record)
    {told : Entries × Value} (done : withFormula config = .ok told) :
    told.1 = record ∧ told.2.depth < (Value.record record).depth := by
  unfold withFormula at done
  rw [isRecord] at done
  dsimp only at done
  split at done
  · next found =>
    cases done
    exact ⟨rfl, Value.depth_lt_of_get? found⟩
  · cases done

theorem load_due [Machine] (isRecord : config.bare = .record record)
    (e : Estimate) :
    FailsFor (Due (recordFits record) (Value.record record).depth) (load config e).1.result := by
  -- one case for each part of the record, in the order in which the parts take effect
  unfold load
  apply failsFor_liftExcept_bind
  · exact (withFormula_due isRecord).due_of_imp fun _ => rfl
  · rintro ⟨record', formula⟩ told
    obtain ⟨same, shallow⟩ := withFormula_eq_ok_record isRecord told
    obtain rfl : record' = record := same
    dsimp only
    have given (key : String) {usual : Value} (flat : usual.depth = 0) :
        ((record'.get? key).getD usual).depth ≤ (Value.record record').depth :=
      (Value.depth_getD_lt record' key flat).le
    apply failsFor_liftExcept_bind
    · exact (Value.told_due _).due_mono (fun _ => rfl) (given "function" rfl)
    intro function _
    apply failsFor_liftExcept_bind
    · exact (Value.told_due formula).due_mono (fun _ => rfl) shallow.le
    intro body _
    apply failsFor_lift_bind
    · exact (Model.ofFormula_due _).due_of_imp fun _ => rfl
    intro model _
    apply failsFor_update_bind
    apply failsFor_update_bind
    apply failsFor_liftExcept_bind
    · exact (Value.toWhole_due _).due_of_imp fun fit => (parts_of_recordFits fit).1
    intro n _
    iterate 4 apply failsFor_update_bind
    apply failsFor_liftExcept_bind
    · exact (Value.items_due _).due_of_imp fun fit => (parts_of_recordFits fit).2.1
    intro items isItems
    apply failsFor_forM
    intro item member e
    exact (loadInput_due (depth_lt_of_mem_inputs isItems member) e.model).due_mono
      (fun fit => (parts_of_recordFits fit).2.2 items isItems item member) le_rfl

/-- A count that cannot be read is what a record is refused for that has a formula. -/
theorem ofConfig_uncounted [Machine] {formula whole : Value} {model : Model} {failure : Failure}
    (told : withFormula config = .ok (record, formula))
    (isWhole : equation record formula = .ok whole)
    (made : (Model.ofFormula whole).result = .ok model)
    (uncounted : countIn record = .error failure) :
    (ofConfig config).result = .error failure := by
  obtain ⟨e, start⟩ := result_initial
  have isModel : (modelIn config).result = .ok (record, model) :=
    modelIn_eq_ok.mpr ⟨formula, whole, told, isWhole, made⟩
  rw [ofConfig, Outcome.result_bind, start]
  dsimp only [Except.bind, from?]
  rw [(load_of_uncounted isModel uncounted e).1]
  rfl

theorem ofConfig_due [Machine] (isRecord : config.bare = .record record) :
    FailsFor (Due (recordFits record) (Value.record record).depth) (ofConfig config).result := by
  obtain ⟨e, made⟩ := result_initial
  unfold ofConfig
  apply Outcome.failsFor_bind
  · rw [made]
    exact .ok e
  · intro e _
    exact failsFor_from? (load_due isRecord e)

end

end Estimate

/-! ## Projects -/

namespace Project

def itemFits (config : Value) : Bool :=
  match config.bare with
  | .record record => Estimate.recordFits record
  | _ => true

/-- Counts, inputs and parameters are of the kinds that they have to be of, as far as the document
has them. -/
def documentFits (document : Option Value) : Bool :=
  match document.map Value.bare with
  | none => true
  | some (.list items) => items.all itemFits
  | some config => itemFits config

theorem itemOf_due [Machine] {config : Value} {item : Outcome Item}
    (isItem : itemOf config = some item) :
    FailsFor (Due (itemFits config) config.depth) item.result := by
  rw [← Value.depth_bare]
  unfold itemOf at isItem
  unfold itemFits
  cases bare : config.bare with
  | record record =>
    rw [bare] at isItem
    dsimp only at isItem
    split at isItem
    · cases isItem
      apply Outcome.failsFor_bind
      · exact Estimate.ofConfig_due bare
      · exact fun _ _ => .ok _
    · cases isItem
      exact .error (Due.naming trivial (Value.depth_getD_lt record "mode" rfl).le)
  | _ =>
    rw [bare] at isItem
    cases isItem

theorem ofRecords_due [Machine] {items : List Value} {depth : Nat}
    (shallow : ∀ item ∈ items, item.depth ≤ depth) :
    FailsFor (Due (items.all itemFits) depth) (ofRecords items).result := by
  induction items with
  | nil => exact .ok _
  | cons config items ih =>
    obtain ⟨shallowFirst, shallowRest⟩ := List.forall_mem_cons.mp shallow
    have both : (config :: items).all itemFits = true →
        itemFits config = true ∧ items.all itemFits = true := by
      rw [List.all_cons, Bool.and_eq_true]
      exact id
    rw [ofRecords]
    cases isItem : itemOf config with
    | none => exact .ok _
    | some item =>
      apply Outcome.failsFor_bind
      · exact (itemOf_due isItem).due_mono (fun fit => (both fit).1) shallowFirst
      · intro _ _
        apply Outcome.failsFor_bind
        · exact (ih shallowRest).due_mono (fun fit => (both fit).2) le_rfl
        · exact fun _ _ => .ok _

def documentDepth (document : Option Value) : Nat :=
  (document.map Value.depth).getD 0

theorem ofDocument_due [Machine] (document : Option Value) :
    FailsFor (Due (documentFits document) (documentDepth document))
      (ofDocument document).result := by
  have single {config : Value} (shallow : config.depth ≤ documentDepth document) :
      FailsFor (Due (itemFits config) (documentDepth document)) (ofRecords [config]).result := by
    simpa using ofRecords_due (List.forall_mem_singleton.mpr shallow)
  have depth : documentDepth document = ((document.map Value.bare).map Value.depth).getD 0 := by
    cases document <;> simp [documentDepth]
  unfold ofDocument documentFits
  cases bare : document.map Value.bare with
  | none => exact .ok _
  | some config =>
    have isDepth : config.depth = documentDepth document := by
      rw [depth, bare]
      rfl
    cases config with
    | null => exact .ok _
    | list items =>
      refine ofRecords_due fun item member => ?_
      rw [← isDepth]
      exact (Value.depth_lt_of_mem_list member).le
    | _ => exact single isDepth.le

theorem result_calculated [Machine] {document : Option Value} {bytes : ByteArray}
    (isDocument : Document.readBytes bytes = .ok document) :
    (Command.calculated (.ok bytes)).result =
      (ofDocument document).result.bind fun project =>
        match project with
        | none => .ok none
        | some project => (Change.from? project calculate).result.map some := by
  simp only [Command.calculated, Outcome.result_bind, Outcome.result_lift, isDocument, Except.bind]
  cases (ofDocument document).result with
  | error failure => rfl
  | ok project =>
    cases project with
    | none => rfl
    | some project =>
      simp only [Outcome.result_bind]
      cases (Change.from? project calculate).result <;> rfl

/-- A document is loaded, describes no project or is refused with a message, unless a value in it is
of the wrong kind or nested deeper than values can be told: then it may be refused without one. What
has a message is what the command reports. -/
theorem ofDocument_spec [Machine] (document : Option Value) :
    (∀ failure, (ofDocument document).result = .error failure →
      ((∃ error, failure = .malformed error) ∨ ∃ reason, failure = .unsuitable reason) ∨
        (documentFits document = false ∧ (failure = .unfit .kind ∨ failure = .overflow)) ∨
        failure = .tooNested ∧ Machine.valueDepth < documentDepth document) ∧
    ∀ (o : Command.Options) (bytes : ByteArray), Document.readBytes bytes = .ok document →
      ((ofDocument document).result = .ok none →
        (Command.workThrough o (.ok bytes)).result =
          .ok (.refused ("Cannot read setup file " ++ o.subject))) ∧
      ∀ failure, (ofDocument document).result = .error failure →
        documentFits document = true → documentDepth document ≤ Machine.valueDepth →
        ∃ message, failure.message? = some message ∧
          (Command.workThrough o (.ok bytes)).result = .ok (.refused message) := by
  have due := ofDocument_due document
  constructor
  · intro failure failed
    have isDue := due failure failed
    unfold Due at isDue
    split at isDue
    · exact .inl (.inl ⟨_, rfl⟩)
    · exact .inl (.inr ⟨_, rfl⟩)
    · exact .inr (.inl ⟨isDue, .inl rfl⟩)
    · exact .inr (.inl ⟨isDue, .inr rfl⟩)
    · exact .inr (.inr ⟨rfl, isDue⟩)
    · exact isDue.elim
  · intro o bytes isDocument
    constructor
    · intro isNone
      rw [Command.workThrough, result_calculated isDocument, isNone]
      rfl
    · intro failure failed fits shallow
      have isDue := due failure failed
      rw [fits] at isDue
      rw [Command.workThrough, result_calculated isDocument, failed]
      unfold Due at isDue
      split at isDue
      · exact ⟨_, rfl, rfl⟩
      · exact ⟨_, rfl, rfl⟩
      -- kinds that do not fit and values that are too deep were ruled out
      · cases isDue
      · cases isDue
      · exact absurd isDue (Nat.not_lt_of_le shallow)
      · exact isDue.elim

section

attribute [local instance] Machine.standard

/-- A document with an input for no variable of its formula. -/
def strayText : String :=
  "- formula: x\n- formula: y\n  inputs:\n  - name: z\n"

def strayShown : String :=
  "[\x7b'formula': 'x'\x7d, \x7b'formula': 'y', 'inputs': [\x7b'name': 'z'\x7d]\x7d]"

def strayMessage : String :=
  "Input `z` is not a variable in formula \"y\""

def isStray (document : Option Value) : Bool :=
  document.map Value.shown = some strayShown &&
    documentFits document && documentDepth document ≤ Machine.valueDepth &&
    match (ofDocument document).result with
    | .error failure => failure.message? = some strayMessage
    | .ok _ => false

theorem exists_readBytes_stray :
    ∃ document, Document.readBytes strayText.toUTF8 = .ok document ∧ isStray document = true := by
  have checked : (match Document.readBytes strayText.toUTF8 with
      | .ok document => isStray document
      | .error _ => false) = true := by decide +kernel
  split at checked
  · next document isDocument => exact ⟨document, isDocument, checked⟩
  · cases checked

/-- A document that is empty, and one that is refused with a message. -/
theorem ofDocument_spec_stray :
    (Document.readBytes .empty = .ok (some .null) ∧ (ofDocument (some .null)).result = .ok none ∧
      (Command.workThrough Command.Progress.initial.options (.ok .empty)).result =
        .ok (.refused "Cannot read setup file ")) ∧
    ∃ document, Document.readBytes strayText.toUTF8 = .ok document ∧
      document.map Value.shown = some strayShown ∧
      documentFits document = true ∧ documentDepth document ≤ Machine.valueDepth ∧
      ∃ failure, (ofDocument document).result = .error failure ∧
        ((∃ error, failure = .malformed error) ∨ ∃ reason, failure = .unsuitable reason) ∧
        (Command.workThrough Command.Progress.initial.options (.ok strayText.toUTF8)).result =
          .ok (.refused strayMessage) := by
  have empty := ofDocument_spec (some .null)
  refine ⟨⟨rfl, rfl, (empty.2 Command.Progress.initial.options .empty rfl).1 rfl⟩, ?_⟩
  obtain ⟨document, isDocument, stray⟩ := exists_readBytes_stray
  simp only [isStray, Bool.and_eq_true, decide_eq_true_eq] at stray
  obtain ⟨⟨⟨shown, fits⟩, shallow⟩, refused⟩ := stray
  split at refused
  · next failure failed =>
    obtain ⟨due, reported⟩ := ofDocument_spec document
    obtain ⟨message, isMessage, ended⟩ :=
      (reported Command.Progress.initial.options _ isDocument).2 failure failed fits shallow
    have same : message = strayMessage := by
      rw [isMessage] at refused
      simpa using refused
    refine ⟨document, isDocument, shown, fits, shallow, failure, failed, ?_, same ▸ ended⟩
    rcases due failure failed with because | ⟨misfit, _⟩ | ⟨_, deep⟩
    · exact because
    · rw [fits] at misfit
      cases misfit
    · exact absurd deep (Nat.not_lt_of_le shallow)
  · cases refused

def uncounted : Entries :=
  Entries.ofFields [("formula", .text "x"), ("samples", .null)]

theorem ofDocument_uncounted :
    (ofDocument (some (.list [.record uncounted]))).result = .error (.unfit .kind) ∧
      Command.onFailure false (.unfit .kind) = .crashed (.unfit .kind) := by
  refine ⟨?_, rfl⟩
  have field (key : String) : uncounted.get? key = List.lookup key _ := Entries.get?_ofFields _ key
  have told : Estimate.withFormula (.record uncounted) = .ok (uncounted, .text "x") := by
    simp only [Estimate.withFormula, Value.bare, field]
    rfl
  have refused : (Estimate.ofConfig (.record uncounted)).result = .error (.unfit .kind) := by
    apply Estimate.ofConfig_uncounted told
    · rw [Estimate.equation, field]
      rfl
    · rfl
    · rw [Estimate.countIn, field]
      rfl
  have item : itemOf (.record uncounted) = some (do
      let e ← Estimate.ofConfig (.record uncounted)
      return .estimate e) := by
    simp [itemOf, Value.bare, field, List.lookup_cons]
  simp only [ofDocument, Option.map_some, Value.bare, ofRecords, item, Outcome.result_bind, refused]
  rfl

end

end Project

end Reckon
