import Reckon.Distribution.Reading
import Reckon.Proofs.Failing
import Reckon.Proofs.Value.Fields
import Reckon.Proofs.Value.Told

/-!
Distributions described by any fields.

A parameter takes the value that was given last, under either of its names, or has the usual one if
none was given. Main statements: which records describe a distribution, and which one that is.
-/

set_option autoImplicit false

namespace Reckon.Distribution

open Entries

def value? (d : Distribution) (parameter : String) : Option Parameter :=
  (d.kind.parameters.zip d.values).lookup parameter

/-- The last value that the fields give to a parameter, under either of its names. -/
def given? (fields : List (String × Value)) (parameter : String) : Option Value :=
  (fields.reverse.find? fun field => listedName field.1 == parameter).map Prod.snd

/-- The value of a parameter once the fields have been given. -/
def valueWith (d : Distribution) (fields : List (String × Value)) (parameter : String) :
    Option Parameter :=
  match given? fields parameter with
  | some value => value.toReal.toOption.map .real
  | none => d.value? parameter

/-- The fields name parameters of the distribution, which has the values they give and the usual
ones besides. -/
structure Describes (fields : List (String × Value)) (d : Distribution) : Prop where
  known : ∀ field ∈ fields, listedName field.1 ∈ d.kind.parameters
  values : ∀ parameter ∈ d.kind.parameters,
    d.value? parameter = (ofKind d.kind).valueWith fields parameter

/-! ## Single parameters -/

@[simp] theorem kind_set (parameter : String) (x : Float) (d : Distribution) :
    (d.set parameter x).kind = d.kind := by
  cases d <;> grind [set, kind]

@[simp] theorem kind_ofKind (kind : Kind) : (ofKind kind).kind = kind := by
  cases kind <;> rfl

theorem map_value? (d : Distribution) : d.kind.parameters.map d.value? = d.values.map some := by
  cases d <;> rfl

theorem exists_value? {d : Distribution} {parameter : String}
    (has : parameter ∈ d.kind.parameters) : ∃ x, d.value? parameter = some x := by
  have member : d.value? parameter ∈ d.kind.parameters.map d.value? := List.mem_map_of_mem has
  rw [map_value?] at member
  obtain ⟨x, _, same⟩ := List.mem_map.mp member
  exact ⟨x, same.symm⟩

theorem value?_set {d : Distribution} {parameter : String} (has : parameter ∈ d.kind.parameters)
    (changed : String) (x : Float) :
    (d.set changed x).value? parameter =
      if parameter = changed then some (.real x) else d.value? parameter := by
  cases d <;> grind [value?, kind, Kind.parameters, values, set]

theorem ext_values {d e : Distribution} (sameKind : d.kind = e.kind)
    (sameValues : d.values = e.values) : d = e := by
  cases d <;> cases e <;> grind [kind, values]

theorem ext_value? {d e : Distribution} (same : d.kind = e.kind)
    (agree : ∀ parameter ∈ d.kind.parameters, d.value? parameter = e.value? parameter) : d = e := by
  apply ext_values same
  have values : d.values.map some = e.values.map some := by
    rw [← map_value?, ← map_value?, ← same]
    exact List.map_congr_left agree
  exact (List.map_inj_right fun _ _ => Option.some.inj).mp values

/-! ## Parameters as doubles -/

/-- The distribution with the double that each parameter stands for. -/
def inDoubles : Distribution → Distribution
  | uniform min max => uniform min.toFloat max.toFloat
  | gaussian mean stddev => gaussian mean.toFloat stddev.toFloat
  | lognormal low high => lognormal low.toFloat high.toFloat
  | poisson rate => poisson rate.toFloat

@[simp] theorem kind_inDoubles (d : Distribution) : d.inDoubles.kind = d.kind := by
  cases d <;> rfl

@[simp] theorem inDoubles_inDoubles (d : Distribution) : d.inDoubles.inDoubles = d.inDoubles := by
  cases d <;> rfl

/-- Every parameter is the double that it was, or the one that it stood for. -/
theorem value?_inDoubles (d : Distribution) (parameter : String) :
    d.inDoubles.value? parameter =
      (d.value? parameter).map fun value => .real value.toFloat := by
  cases d <;> grind [value?, kind, Kind.parameters, values, inDoubles]

theorem config_inDoubles (d : Distribution) : d.inDoubles.config = d.config := by
  cases d <;> rfl

/-! ## Names of parameters -/

theorem shortName_shortName (name : String) : shortName (shortName name) = shortName name := by
  grind [shortName]

theorem listedName_of_mem {kind : Kind} {parameter : String} (has : parameter ∈ kind.parameters) :
    listedName parameter = parameter := by
  cases kind <;> grind [Kind.parameters, listedName]

theorem ne_type_of_mem {kind : Kind} {parameter : String} (has : parameter ∈ kind.parameters) :
    parameter ≠ "type" := by
  cases kind <;> grind [Kind.parameters]

theorem nodup_parameters (kind : Kind) : kind.parameters.Nodup := by
  cases kind <;> decide

theorem shortName_eq_iff {name other : String} :
    shortName name = shortName other ↔ listedName name = listedName other := by
  grind [listedName, shortName]

theorem hasParameter_shortName {kind : Kind} {name : String} :
    hasParameter kind (shortName name) = true ↔ listedName name ∈ kind.parameters := by
  rw [hasParameter, List.contains_iff_mem, List.mem_map]
  constructor
  · rintro ⟨parameter, has, same⟩
    rw [shortName_eq_iff, listedName_of_mem has] at same
    exact same ▸ has
  · intro has
    refine ⟨_, has, ?_⟩
    rw [shortName_eq_iff, listedName_of_mem has]

/-! ## Fields given -/

theorem given?_concat (fields : List (String × Value)) (field : String × Value)
    (parameter : String) :
    given? (fields ++ [field]) parameter =
      if listedName field.1 = parameter then some field.2 else given? fields parameter := by
  rw [given?, List.reverse_concat, List.find?_cons]
  by_cases same : listedName field.1 = parameter
  · simp [same]
  · have differs : (listedName field.1 == parameter) = false := by simpa using same
    rw [differs, if_neg same]
    rfl

theorem mem_of_given? {fields : List (String × Value)} {parameter : String} {value : Value}
    (given : given? fields parameter = some value) :
    ∃ field ∈ fields, listedName field.1 = parameter ∧ field.2 = value := by
  obtain ⟨field, found, same⟩ := Option.map_eq_some_iff.mp given
  have named := List.find?_some found
  exact ⟨field, List.mem_reverse.mp (List.mem_of_find?_eq_some found), by simpa using named, same⟩

theorem update_concat (d : Distribution) (fields : List (String × Value))
    (field : String × Value) :
    update d (fields ++ [field]) = (do
      let changed ← update d fields
      let x ← field.2.toReal
      return changed.set (listedName field.1) x) := by
  induction fields generalizing d with
  | nil =>
    obtain ⟨name, value⟩ := field
    rw [List.nil_append]
    simp only [update]
    cases value.toReal <;> rfl
  | cons first fields ih =>
    obtain ⟨name, value⟩ := first
    rw [List.cons_append, update, update]
    cases value.toReal with
    | error failure => rfl
    | ok x => exact ih _

theorem update_error {d : Distribution} {fields : List (String × Value)} {failure : Failure}
    (failed : update d fields = .error failure) :
    ∃ field ∈ fields, field.2.toReal = .error failure := by
  induction fields generalizing d with
  | nil => cases failed
  | cons field fields ih =>
    obtain ⟨name, value⟩ := field
    rw [update] at failed
    split at failed
    · obtain ⟨later, member, unread⟩ := ih failed
      exact ⟨later, List.mem_cons_of_mem _ member, unread⟩
    · next unread =>
      cases failed
      exact ⟨_, List.mem_cons_self, unread⟩

/-- An update keeps the kind and gives every parameter its last value. -/
theorem update_spec {d e : Distribution} {fields : List (String × Value)}
    (updated : update d fields = .ok e) :
    e.kind = d.kind ∧ ∀ parameter ∈ d.kind.parameters,
      e.value? parameter = d.valueWith fields parameter := by
  -- what is given last counts, so the induction takes the last field off
  induction fields using List.reverseRecOn generalizing e with
  | nil =>
    cases updated
    exact ⟨rfl, fun _ _ => rfl⟩
  | append_singleton fields field ih =>
    rw [update_concat] at updated
    obtain ⟨changed, before, updated⟩ := bind_eq_ok.mp updated
    obtain ⟨x, reads, updated⟩ := bind_eq_ok.mp updated
    cases updated
    obtain ⟨sameKind, values⟩ := ih before
    refine ⟨by rw [kind_set, sameKind], fun parameter has => ?_⟩
    rw [value?_set (sameKind ▸ has), values parameter has, valueWith, valueWith, given?_concat]
    by_cases same : listedName field.1 = parameter
    · simp [same, reads, Except.toOption]
    · simp [same, Ne.symm same]

/-! ## Fields that count -/

def shortened (fields : List (String × Value)) : List (String × Value) :=
  fields.map fun field => (shortName field.1, field.2)

/-- The fields that count: one for each parameter, under its short name. -/
def counted (fields : List (String × Value)) : List (String × Value) :=
  override [] (shortened fields)

section

variable {fields : List (String × Value)} {name parameter : String} {value : Value}

theorem nodup_counted (fields : List (String × Value)) :
    ((counted fields).map Prod.fst).Nodup :=
  nodup_override (by simp) _

theorem mem_names_counted :
    name ∈ (counted fields).map Prod.fst ↔ ∃ field ∈ fields, shortName field.1 = name := by
  rw [counted, mem_names_override, shortened, List.map_map]
  simp

theorem lookup_reverse_shortened (fields : List (String × Value)) (name : String) :
    (shortened fields).reverse.lookup (shortName name) = given? fields (listedName name) := by
  induction fields using List.reverseRecOn with
  | nil => rfl
  | append_singleton fields field ih =>
    have last : shortened (fields ++ [field]) =
        shortened fields ++ [(shortName field.1, field.2)] :=
      List.map_append
    rw [last, List.reverse_concat, lookup_cons, ih, given?_concat]
    by_cases same : listedName field.1 = listedName name
    · rw [if_pos (shortName_eq_iff.mpr same.symm), if_pos same]
    · rw [if_neg fun short => same (shortName_eq_iff.mp short).symm, if_neg same]

theorem given?_of_mem {field : String × Value}
    (distinct : (fields.map fun field => shortName field.1).Nodup) (member : field ∈ fields) :
    given? fields (listedName field.1) = some field.2 := by
  have distinctShort : ((shortened fields).map Prod.fst).Nodup := by
    simpa [shortened, List.map_map, Function.comp_def] using distinct
  rw [← lookup_reverse_shortened, lookup_reverse distinctShort]
  exact lookup_of_mem distinctShort (List.mem_map.mpr ⟨field, member, rfl⟩)

theorem lookup_counted (fields : List (String × Value)) (name : String) :
    (counted fields).lookup (shortName name) = given? fields (listedName name) := by
  rw [counted, lookup_override, lookup_reverse_shortened, List.lookup_nil, Option.or_none]

theorem given?_counted (fields : List (String × Value)) (name : String) :
    given? (counted fields) (listedName name) = given? fields (listedName name) := by
  -- what counts has short names already
  have short : shortened (counted fields) = counted fields := by
    have each : ∀ field ∈ counted fields, (shortName field.1, field.2) = field := by
      intro field member
      obtain ⟨origin, _, same⟩ := mem_names_counted.mp (List.mem_map_of_mem member)
      rw [← same, shortName_shortName]
      rw [same]
    rw [shortened, List.map_congr_left each, List.map_id']
  rw [← lookup_reverse_shortened, short, lookup_reverse (nodup_counted fields), lookup_counted]

theorem given?_of_mem_counted (member : (name, value) ∈ counted fields) :
    given? fields (listedName name) = some value := by
  obtain ⟨field, _, same⟩ := mem_names_counted.mp (List.mem_map_of_mem member)
  have short : shortName name = name := by
    rw [← show shortName field.1 = name from same, shortName_shortName]
  rw [← lookup_counted, short]
  exact lookup_of_mem (nodup_counted fields) member

theorem valueWith_counted {d : Distribution} (has : parameter ∈ d.kind.parameters) :
    d.valueWith (counted fields) parameter = d.valueWith fields parameter := by
  have same := given?_counted fields parameter
  rw [listedName_of_mem has] at same
  rw [valueWith, valueWith, same]

end

/-! ## Making distributions -/

section

variable [Machine]

theorem ofParameters_eq (kind : Kind) (fields : List (String × Value)) :
    ofParameters kind fields =
      match (counted fields).find? fun field => !hasParameter kind field.1 with
      | some (parameter, _) => .error (.unsuitable (.parameterName parameter kind.name))
      | none =>
        match update (ofKind kind) (counted fields) with
        | .ok d => .ok d
        | .error .overflow => .error .overflow
        | .error _ =>
          .error ((Value.record (ofFields (counted fields))).naming
            (.unsuitable (.parameterValues kind.name (ofFields (counted fields))))) := by
  have short : ofPairs (fields.map fun field => (.text (shortName field.1), field.2)) =
      ofFields (counted fields) := by
    rw [counted, ← ofPairs_eq_override, shortened, ofFields, List.map_map]
    rfl
  rw [ofParameters, short]
  dsimp only
  rw [map_ofFields fun _ _ => rfl]
  rfl

variable {kind : Kind} {fields : List (String × Value)} {d : Distribution}

omit [Machine] in
theorem find?_counted_eq_none_iff :
    (counted fields).find? (fun field => !hasParameter kind field.1) = none ↔
      ∀ field ∈ fields, listedName field.1 ∈ kind.parameters := by
  rw [List.find?_eq_none]
  constructor
  · intro known field member
    have isCounted : shortName field.1 ∈ (counted fields).map Prod.fst :=
      mem_names_counted.mpr ⟨field, member, rfl⟩
    obtain ⟨other, isOther, same⟩ := List.mem_map.mp isCounted
    have has := known other isOther
    rw [same] at has
    exact hasParameter_shortName.mp (by simpa using has)
  · intro known other isOther
    obtain ⟨field, member, same⟩ := mem_names_counted.mp (List.mem_map_of_mem isOther)
    rw [← same, hasParameter_shortName.mpr (known field member)]
    simp

theorem describes_of_ofParameters (made : ofParameters kind fields = .ok d) :
    d.kind = kind ∧ Describes fields d := by
  rw [ofParameters_eq] at made
  split at made
  · cases made
  · next none =>
    split at made
    · next e updated =>
      cases made
      obtain ⟨sameKind, values⟩ := update_spec updated
      rw [kind_ofKind] at sameKind values
      subst sameKind
      refine ⟨rfl, find?_counted_eq_none_iff.mp none, fun parameter has => ?_⟩
      rw [values parameter has]
      exact valueWith_counted (by rwa [kind_ofKind])
    · cases made
    · cases made

theorem ofParameters_error {failure : Failure}
    (failed : ofParameters kind fields = .error failure) :
    (∃ why, failure = .unsuitable why) ∨
      (failure = .overflow ∧ ∃ parameter ∈ kind.parameters, ∃ value,
        given? fields parameter = some value ∧ value.toReal = .error .overflow) ∨
      failure = .tooNested ∧
        Machine.valueDepth < (Value.record (ofFields (counted fields))).depth := by
  rw [ofParameters_eq] at failed
  split at failed
  · cases failed
    exact .inl ⟨_, rfl⟩
  · next none =>
    split at failed
    · cases failed
    · next tooLarge =>
      cases failed
      obtain ⟨field, member, unread⟩ := update_error tooLarge
      have given := given?_of_mem_counted member
      obtain ⟨origin, isOrigin, same, _⟩ := mem_of_given? given
      have has := find?_counted_eq_none_iff.mp none origin isOrigin
      exact .inr (.inl ⟨rfl, _, same ▸ has, _, given, unread⟩)
    · cases failed
      rcases Value.naming_cases (.record (ofFields (counted fields)))
        (.unsuitable (.parameterValues kind.name (ofFields (counted fields)))) with same | why | deep
      · exact .inl ⟨_, same⟩
      · exact .inl ⟨_, why⟩
      · exact .inr (.inr deep)

theorem exists_ofParameters (known : ∀ field ∈ fields, listedName field.1 ∈ kind.parameters)
    (readable : ∀ parameter value, given? fields parameter = some value →
      ∃ x, value.toReal = .ok x) : ∃ d, ofParameters kind fields = .ok d := by
  cases updated : update (ofKind kind) (counted fields) with
  | error failure =>
    obtain ⟨field, member, unread⟩ := update_error updated
    obtain ⟨x, reads⟩ := readable _ _ (given?_of_mem_counted member)
    rw [unread] at reads
    cases reads
  | ok d => exact ⟨d, by rw [ofParameters_eq, find?_counted_eq_none_iff.mpr known, updated]⟩

end

namespace Describes

variable {fields : List (String × Value)} {d e : Distribution} (describes : Describes fields d)

include describes

theorem unique (other : Describes fields e) (same : d.kind = e.kind) : d = e := by
  apply ext_value? same
  intro parameter has
  rw [describes.values parameter has, other.values parameter (same ▸ has), same]

theorem mem_parameters {parameter : String} {value : Value}
    (given : given? fields parameter = some value) : parameter ∈ d.kind.parameters := by
  obtain ⟨field, member, rfl, _⟩ := mem_of_given? given
  exact describes.known field member

theorem readable (parameter : String) (value : Value)
    (given : given? fields parameter = some value) : ∃ x, value.toReal = .ok x := by
  have has := describes.mem_parameters given
  obtain ⟨x, isValue⟩ := exists_value? has
  rw [describes.values parameter has, valueWith, given] at isValue
  cases reads : value.toReal with
  | ok y => exact ⟨y, rfl⟩
  | error failure =>
    simp [reads, Except.toOption] at isValue

theorem ofParameters [Machine] : Distribution.ofParameters d.kind fields = .ok d := by
  obtain ⟨e, made⟩ := exists_ofParameters describes.known describes.readable
  obtain ⟨sameKind, other⟩ := describes_of_ofParameters made
  rw [made, describes.unique other sameKind.symm]

theorem unkept : ∀ field ∈ fields, field.1 ≠ "name" := by
  intro field member isName
  have has := describes.known field member
  rw [isName] at has
  revert has
  generalize d.kind = kind
  cases kind <;> decide

end Describes

/-! ## Reading -/

theorem parameterName_eq_ok_iff {key : Value} {name : String} :
    parameterName key = .ok name ↔ key = .text name ∧ name ≠ "name" := by
  unfold parameterName
  split
  · grind
  · next text other => grind
  · next other => grind

theorem named_cons (key value : Value) (parameters : Entries) :
    named ((key, value) :: parameters) =
      (do
        let name ← parameterName key
        let others ← named parameters
        return (name, value) :: others) := by
  simp [named, List.mapM_cons]

theorem named_ofFields {fields : List (String × Value)}
    (unkept : ∀ field ∈ fields, field.1 ≠ "name") : named (ofFields fields) = .ok fields := by
  induction fields with
  | nil => rfl
  | cons field fields ih =>
    obtain ⟨other, unkeptRest⟩ := List.forall_mem_cons.mp unkept
    rw [ofFields_cons, named_cons, parameterName_eq_ok_iff.mpr ⟨rfl, other⟩, ih unkeptRest]
    rfl

theorem named_eq_ok_iff {record : Entries} {fields : List (String × Value)} :
    named record = .ok fields ↔ record = ofFields fields ∧ ∀ field ∈ fields, field.1 ≠ "name" := by
  constructor
  · intro done
    induction record generalizing fields with
    | nil =>
      cases done
      exact ⟨rfl, List.forall_mem_nil _⟩
    | cons entry record ih =>
      rw [named_cons] at done
      obtain ⟨name, isName, done⟩ := bind_eq_ok.mp done
      obtain ⟨others, areOthers, done⟩ := bind_eq_ok.mp done
      cases done
      obtain ⟨isText, unkeptFirst⟩ := parameterName_eq_ok_iff.mp isName
      obtain ⟨rfl, unkept⟩ := ih areOthers
      refine ⟨?_, List.forall_mem_cons.mpr ⟨unkeptFirst, unkept⟩⟩
      rw [ofFields_cons, ← isText]
  · rintro ⟨rfl, unkept⟩
    exact named_ofFields unkept

theorem ofName?_name (kind : Kind) : Kind.ofName? kind.name = some kind := by
  cases kind <;> rfl

theorem ofName?_eq_some_iff {name : String} {kind : Kind} :
    Kind.ofName? name = some kind ↔ kind.name = name := by
  constructor
  · intro found
    have isName := List.find?_some found
    exact of_decide_eq_true isName
  · rintro rfl
    exact ofName?_name kind

theorem kindOf_text [Machine] (name : String) :
    kindOf (.text name) =
      match Kind.ofName? name with
      | some kind => .ok kind
      | none => .error (.unsuitable (.distributionKind name)) := by
  have isName : (Value.text name).isName = true := by simp [Value.isName, Value.bare]
  simp only [kindOf, isName, Value.toText, Value.naming_of_told (Value.trouble?_text name)]
  cases Kind.ofName? name <;> rfl

theorem kindOf_name [Machine] (kind : Kind) : kindOf (.text kind.name) = .ok kind := by
  rw [kindOf_text, ofName?_name]

theorem kindOf_eq_ok_iff [Machine] {value : Value} {kind : Kind} :
    kindOf value = .ok kind ↔ value = .text kind.name := by
  constructor
  · intro done
    cases value with
    | text name =>
      rw [kindOf_text] at done
      split at done
      · next found =>
        cases done
        rw [ofName?_eq_some_iff.mp found]
      · cases done
    | _ =>
      unfold kindOf at done
      split at done <;> cases done
  · rintro rfl
    exact kindOf_name kind

theorem result_checkPercentiles (d : Distribution) : (checkPercentiles d).result = .ok () := by
  unfold checkPercentiles
  split
  · split <;> rfl
  · rfl

theorem make_eq_ok_iff [Machine] {value : Value} {parameters : Entries} {d : Distribution} :
    (make value parameters).result = .ok d ↔
      value = .text d.kind.name ∧ ∃ fields, parameters = ofFields fields ∧ Describes fields d := by
  rw [make, Outcome.result_bind, Outcome.result_lift]
  constructor
  · intro made
    obtain ⟨fields, areFields, made⟩ := bind_eq_ok.mp made
    rw [Outcome.result_bind, Outcome.result_lift] at made
    obtain ⟨kind, isKind, made⟩ := bind_eq_ok.mp made
    rw [Outcome.result_bind, Outcome.result_lift] at made
    obtain ⟨e, isMade, made⟩ := bind_eq_ok.mp made
    rw [Outcome.result_bind, result_checkPercentiles] at made
    cases made
    obtain ⟨rfl, describes⟩ := describes_of_ofParameters isMade
    exact ⟨kindOf_eq_ok_iff.mp isKind, fields, (named_eq_ok_iff.mp areFields).1, describes⟩
  · rintro ⟨rfl, fields, rfl, describes⟩
    rw [named_ofFields describes.unkept]
    simp only [Except.bind, Outcome.result_bind, Outcome.result_lift, kindOf_name,
      describes.ofParameters, result_checkPercentiles]
    rfl

/-- A record makes the distribution that it names the kind of and that its other entries
describe. -/
theorem ofRecord_eq_ok_iff [Machine] {record : Entries} {d : Distribution} :
    (ofRecord record).result = .ok d ↔
      (record.get? "type").getD (.text "uniform") = .text d.kind.name ∧
        ∃ fields, record.without "type" = ofFields fields ∧ Describes fields d :=
  make_eq_ok_iff

theorem given?_of_listed {fields : List (String × Value)}
    (listed : ∀ field ∈ fields, listedName field.1 = field.1)
    (distinct : (fields.map Prod.fst).Nodup) (parameter : String) :
    given? fields parameter = fields.lookup parameter := by
  rw [← lookup_reverse distinct]
  clear distinct
  induction fields using List.reverseRecOn with
  | nil => rfl
  | append_singleton fields field ih =>
    have isListed := listed field (List.mem_append_right _ List.mem_cons_self)
    rw [given?_concat, List.reverse_concat, lookup_cons, isListed,
      ih fun other member => listed other (List.mem_append_left _ member)]
    simp only [eq_comm]

/-- What describes a distribution is a record of its kind and of fields for its parameters. -/
theorem exists_fields [Machine] {described : Value} {d : Distribution}
    (made : (ofConfig described).result = .ok d) :
    ∃ record fields, described.toRecord = .ok record ∧
      (record.get? "type").getD (.text "uniform") = .text d.kind.name ∧
      record.without "type" = ofFields fields ∧ Describes fields d := by
  rw [ofConfig, Outcome.result_bind, Outcome.result_lift] at made
  obtain ⟨record, isRecord, made⟩ := bind_eq_ok.mp made
  obtain ⟨isKind, fields, areFields, describes⟩ := ofRecord_eq_ok_iff.mp made
  exact ⟨record, fields, isRecord, isKind, areFields, describes⟩

end Reckon.Distribution
