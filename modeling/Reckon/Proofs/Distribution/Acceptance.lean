import Mathlib.Algebra.Ring.Int.Defs
import Reckon.Proofs.Distribution.Parameters

/-!
Which records are accepted, and what the others are refused for.

A record of named fields is accepted if its type names a kind, all other fields are for parameters
of that kind, and what counts of them is read as numbers. Anything else is unsuitable, apart from
two exceptions: a field with the name that is kept for the kind, and a whole number beyond the
doubles.
-/

set_option autoImplicit false

namespace Reckon

namespace Value

theorem realOf_ne_overflow (written : Value) (s : String) :
    realOf written s ≠ .error .overflow := by
  unfold realOf
  split <;> simp

theorem toReal_eq_overflow {v : Value} (failed : v.toReal = .error .overflow) :
    ∃ n, v = .int n ∧ Binary.ofInt? n = none := by
  cases v with
  | int n =>
    simp only [toReal] at failed
    split at failed
    · cases failed
    · next beyond => exact ⟨n, rfl, beyond⟩
  | text s => exact absurd failed (realOf_ne_overflow _ _)
  | bytes content => exact absurd failed (realOf_ne_overflow _ _)
  | _ => cases failed

theorem toReal_wrapped (v : Value) {levels : Nat} (some : 0 < levels) :
    (v.wrapped levels).toReal = .error (.unfit .kind) := by
  cases levels with
  | zero => cases some
  | succ levels => rfl

end Value

namespace Distribution

open Entries

/-- All fields but the type are for parameters of the kind, and what counts is read as numbers. -/
structure Suits (kind : Kind) (fields : List (String × Value)) : Prop where
  known : ∀ field ∈ fields, field.1 ≠ "type" → listedName field.1 ∈ kind.parameters
  readable : ∀ parameter ∈ kind.parameters, ∀ value, given? fields parameter = some value →
    ∃ x, value.toReal = .ok x

/-! ## How deep fields are nested -/

section

variable {fields further : List (String × Value)}

theorem depth_ofFields_le (values : ∀ field ∈ fields, ∃ origin ∈ further, origin.2 = field.2) :
    (Value.record (ofFields fields)).depth ≤ (Value.record (ofFields further)).depth := by
  rw [Value.depth, Value.depth]
  refine Nat.succ_le_succ (Value.depthIn_le_iff.mpr fun entry member => ?_)
  obtain ⟨field, isField, rfl⟩ := List.mem_map.mp member
  obtain ⟨origin, isOrigin, same⟩ := values field isField
  have isEntry : (.text origin.1, origin.2) ∈ ofFields further := List.mem_map_of_mem isOrigin
  obtain ⟨_, deep⟩ := Value.depthIn_le_iff.mp le_rfl _ isEntry
  exact ⟨Nat.zero_le _, same ▸ deep⟩

theorem depth_counted_le (fields : List (String × Value)) :
    (Value.record (ofFields (counted fields))).depth ≤ (Value.record (ofFields fields)).depth := by
  refine depth_ofFields_le fun field member => ?_
  obtain ⟨origin, isOrigin, _, same⟩ := mem_of_given? (given?_of_mem_counted member)
  exact ⟨origin, isOrigin, same⟩

end

/-! ## Fields besides the type -/

def besides (fields : List (String × Value)) : List (String × Value) :=
  fields.filter fun field => field.1 != "type"

section

variable {fields : List (String × Value)} {kind : Kind} {parameter : String}

theorem mem_besides {field : String × Value} :
    field ∈ besides fields ↔ field ∈ fields ∧ field.1 ≠ "type" := by
  simp [besides]

theorem depth_besides_le (fields : List (String × Value)) :
    (Value.record (ofFields (besides fields))).depth ≤ (Value.record (ofFields fields)).depth :=
  depth_ofFields_le fun field member => ⟨field, (mem_besides.mp member).1, rfl⟩

theorem given?_besides (other : parameter ≠ "type") (fields : List (String × Value)) :
    given? (besides fields) parameter = given? fields parameter := by
  induction fields using List.reverseRecOn with
  | nil => rfl
  | append_singleton fields field ih =>
    rw [given?_concat]
    by_cases isType : field.1 = "type"
    · have dropped : besides (fields ++ [field]) = besides fields := by
        simp [besides, isType]
      have apart : listedName field.1 ≠ parameter := by
        rw [isType]
        exact other.symm
      rw [dropped, ih, if_neg apart]
    · have kept : besides (fields ++ [field]) = besides fields ++ [field] := by
        simp [besides, isType]
      rw [kept, given?_concat, ih]

end

/-! ## Refusals -/

section

variable {fields : List (String × Value)}

theorem named_of_reserved (reserved : ∃ field ∈ fields, field.1 = "name") :
    named (ofFields fields) = .error (.unfit .reservedName) := by
  induction fields with
  | nil =>
    obtain ⟨_, member, _⟩ := reserved
    cases member
  | cons field fields ih =>
    rw [ofFields_cons, named_cons]
    by_cases here : field.1 = "name"
    · rw [here]
      rfl
    · have later : ∃ field ∈ fields, field.1 = "name" := by
        obtain ⟨other, member, isName⟩ := reserved
        rcases List.mem_cons.mp member with rfl | later
        · exact absurd isName here
        · exact ⟨other, later, isName⟩
      rw [parameterName_eq_ok_iff.mpr ⟨rfl, here⟩, ih later]
      rfl

theorem result_make_of_reserved [Machine] {kind : Value}
    (reserved : ∃ field ∈ fields, field.1 = "name") :
    (make kind (ofFields fields)).result = .error (.unfit .reservedName) := by
  rw [make, Outcome.result_bind, Outcome.result_lift, named_of_reserved reserved]
  rfl

theorem result_make_text [Machine] (unkept : ∀ field ∈ fields, field.1 ≠ "name") (name : String) :
    (make (.text name) (ofFields fields)).result =
      match Kind.ofName? name with
      | some kind => ofParameters kind fields
      | none => .error (.unsuitable (.distributionKind name)) := by
  rw [make, Outcome.result_bind, Outcome.result_lift, named_ofFields unkept]
  simp only [Except.bind, Outcome.result_bind, Outcome.result_lift, kindOf_text]
  cases Kind.ofName? name with
  | none => rfl
  | some kind =>
    dsimp only
    cases ofParameters kind fields with
    | error failure => rfl
    | ok d =>
      simp only [result_checkPercentiles]
      rfl

end

section

variable {fields : List (String × Value)} {name : String}

theorem suits_iff [Machine] {kind : Kind} :
    Suits kind fields ↔ ∃ d, d.kind = kind ∧ Describes (besides fields) d := by
  constructor
  · intro suits
    -- fields that count are read, and no field that does not count has to be
    have known : ∀ field ∈ besides fields, listedName field.1 ∈ kind.parameters := by
      intro field member
      obtain ⟨inside, other⟩ := mem_besides.mp member
      exact suits.known field inside other
    obtain ⟨d, made⟩ := exists_ofParameters known fun parameter value given => by
      obtain ⟨field, member, rfl, _⟩ := mem_of_given? given
      have has := known field member
      rw [given?_besides (ne_type_of_mem has)] at given
      exact suits.readable _ has value given
    exact ⟨d, describes_of_ofParameters made⟩
  · rintro ⟨d, rfl, describes⟩
    refine ⟨fun field member other => ?_, fun parameter has value given => ?_⟩
    · exact describes.known field (mem_besides.mpr ⟨member, other⟩)
    · rw [← given?_besides (ne_type_of_mem has)] at given
      exact describes.readable parameter value given

theorem make_eq_ok_text_iff [Machine] {d : Distribution} :
    (make (.text name) (ofFields fields)).result = .ok d ↔
      d.kind.name = name ∧ Describes fields d := by
  rw [make_eq_ok_iff]
  constructor
  · rintro ⟨isName, other, same, describes⟩
    rw [ofFields_injective same]
    exact ⟨(Value.text.inj isName).symm, describes⟩
  · rintro ⟨rfl, describes⟩
    exact ⟨rfl, fields, rfl, describes⟩

theorem make_error [Machine] {failure : Failure}
    (failed : (make (.text name) (ofFields fields)).result = .error failure) :
    (∃ why, failure = .unsuitable why) ∨
      (failure = .unfit .reservedName ∧ ∃ field ∈ fields, field.1 = "name") ∨
      (failure = .overflow ∧ ∃ kind : Kind, kind.name = name ∧ ∃ parameter ∈ kind.parameters,
        ∃ value, given? fields parameter = some value ∧ value.toReal = .error .overflow) ∨
      failure = .tooNested ∧ Machine.valueDepth < (Value.record (ofFields fields)).depth := by
  by_cases reserved : ∃ field ∈ fields, field.1 = "name"
  · rw [result_make_of_reserved reserved] at failed
    cases failed
    exact .inr (.inl ⟨rfl, reserved⟩)
  · have unkept : ∀ field ∈ fields, field.1 ≠ "name" := fun field member isName =>
      reserved ⟨field, member, isName⟩
    rw [result_make_text unkept] at failed
    split at failed
    · next kind found =>
      rcases ofParameters_error failed with unsuitable | ⟨rfl, beyond⟩ | ⟨rfl, deep⟩
      · exact .inl unsuitable
      · exact .inr (.inr (.inl ⟨rfl, kind, ofName?_eq_some_iff.mp found, beyond⟩))
      · exact .inr (.inr (.inr ⟨rfl, Nat.lt_of_lt_of_le deep (depth_counted_le fields)⟩))
    · cases failed
      exact .inl ⟨_, rfl⟩

theorem result_ofConfig_record [Machine]
    (isType : (fields.lookup "type").getD (.text "uniform") = .text name) :
    (ofConfig (.record (ofFields fields))).result =
      (make (.text name) (ofFields (besides fields))).result := by
  have same : (ofConfig (.record (ofFields fields))).result = (ofRecord (ofFields fields)).result :=
    rfl
  rw [same, ofRecord, get?_ofFields, isType, without_ofFields]
  rfl

theorem exists_reserved_besides :
    (∃ field ∈ besides fields, field.1 = "name") ↔ ∃ field ∈ fields, field.1 = "name" := by
  constructor
  · rintro ⟨field, member, isName⟩
    exact ⟨field, (mem_besides.mp member).1, isName⟩
  · rintro ⟨field, member, isName⟩
    exact ⟨field, mem_besides.mpr ⟨member, by simp [isName]⟩, isName⟩

/-- A record of named fields makes a distribution of the kind that its type names exactly if its
other fields suit that kind. Otherwise it is unsuitable, unless it has a field with the name that is
kept for the kind, gives a parameter a whole number beyond the doubles, or is nested too deeply to be
told. -/
theorem ofConfig_record_spec [Machine]
    (isType : (fields.lookup "type").getD (.text "uniform") = .text name) :
    (∀ d, (ofConfig (.record (ofFields fields))).result = .ok d → d.kind.name = name) ∧
    ((∃ d, (ofConfig (.record (ofFields fields))).result = .ok d) ↔
      ∃ kind : Kind, kind.name = name ∧ Suits kind fields) ∧
    ((ofConfig (.record (ofFields fields))).result = .error (.unfit .reservedName) ↔
      ∃ field ∈ fields, field.1 = "name") ∧
    ∀ failure, (ofConfig (.record (ofFields fields))).result = .error failure →
      (∃ why, failure = .unsuitable why) ∨
      (failure = .unfit .reservedName ∧ ∃ field ∈ fields, field.1 = "name") ∨
      (failure = .overflow ∧ ∃ kind : Kind, kind.name = name ∧ ∃ parameter ∈ kind.parameters,
        ∃ n, given? fields parameter = some (.int n) ∧ Binary.ofInt? n = none) ∨
      failure = .tooNested ∧ Machine.valueDepth < (Value.record (ofFields fields)).depth := by
  rw [result_ofConfig_record isType]
  refine ⟨fun d made => (make_eq_ok_text_iff.mp made).1, ?_, ?_, fun failure failed => ?_⟩
  · -- a kind is known by its name
    simp only [make_eq_ok_text_iff, suits_iff]
    grind
  · constructor
    · intro failed
      rcases make_error failed with ⟨_, unsuitable⟩ | ⟨_, reserved⟩ | ⟨overflow, _⟩ | ⟨nested, _⟩
      · cases unsuitable
      · exact exists_reserved_besides.mp reserved
      · cases overflow
      · cases nested
    · exact fun reserved => result_make_of_reserved (exists_reserved_besides.mpr reserved)
  · rcases make_error failed with
      unsuitable | ⟨rfl, reserved⟩ | ⟨rfl, kind, isKind, beyond⟩ | ⟨rfl, deep⟩
    · exact .inl unsuitable
    · exact .inr (.inl ⟨rfl, exists_reserved_besides.mp reserved⟩)
    · obtain ⟨parameter, has, value, given, tooLarge⟩ := beyond
      obtain ⟨n, rfl, none⟩ := Value.toReal_eq_overflow tooLarge
      rw [given?_besides (ne_type_of_mem has)] at given
      exact .inr (.inr (.inl ⟨rfl, kind, isKind, parameter, has, n, given, none⟩))
    · exact .inr (.inr (.inr ⟨rfl, Nat.lt_of_lt_of_le deep (depth_besides_le fields)⟩))

/-- A rate that is given under both of its names; the last one counts. -/
def rateFields : List (String × Value) :=
  [("lam", .null), ("type", .text "poisson"), ("lambda", .text "2.5")]

section

attribute [local instance] Machine.standard

theorem ofConfig_record_spec_rate :
    (rateFields.lookup "type").getD (.text "uniform") = .text "poisson" ∧
    (∀ d, (ofConfig (.record (ofFields rateFields))).result = .ok d → d.kind.name = "poisson") ∧
    ((∃ d, (ofConfig (.record (ofFields rateFields))).result = .ok d) ↔
      ∃ kind : Kind, kind.name = "poisson" ∧ Suits kind rateFields) ∧
    ((ofConfig (.record (ofFields rateFields))).result = .error (.unfit .reservedName) ↔
      ∃ field ∈ rateFields, field.1 = "name") ∧
    ∀ failure, (ofConfig (.record (ofFields rateFields))).result = .error failure →
      (∃ why, failure = .unsuitable why) ∨
      (failure = .unfit .reservedName ∧ ∃ field ∈ rateFields, field.1 = "name") ∨
      (failure = .overflow ∧ ∃ kind : Kind, kind.name = "poisson" ∧ ∃ parameter ∈ kind.parameters,
        ∃ n, given? rateFields parameter = some (.int n) ∧ Binary.ofInt? n = none) ∨
      failure = .tooNested ∧ Machine.valueDepth < (Value.record (ofFields rateFields)).depth :=
  have isType : (rateFields.lookup "type").getD (.text "uniform") = .text "poisson" := rfl
  ⟨isType, ofConfig_record_spec isType⟩

end

theorem result_ofConfig_beyond [Machine] {n : Int} (beyond : Binary.ofInt? n = none) :
    (ofConfig (.record (ofFields [("type", .text "uniform"), ("min", .int n)]))).result =
      .error .overflow := by
  have rest : besides [("type", .text "uniform"), ("min", .int n)] = [("min", .int n)] := rfl
  have unkept : ∀ field ∈ [("min", Value.int n)], field.1 ≠ "name" := by simp
  have isUniform : Kind.ofName? "uniform" = some .uniform := rfl
  have counts : counted [("min", .int n)] = [("min", .int n)] := rfl
  rw [result_ofConfig_record rfl, rest, result_make_text unkept, isUniform]
  dsimp only
  rw [ofParameters_eq, counts]
  simp [hasParameter, Kind.parameters, shortName, update, Value.toReal, beyond]

theorem result_ofConfig_nested [Machine] {v : Value}
    (nested : (Value.record (ofFields [("min", v)])).trouble? = some .tooNested)
    (unread : v.toReal = .error (.unfit .kind)) :
    (ofConfig (.record (ofFields [("type", .text "uniform"), ("min", v)]))).result =
      .error .tooNested := by
  have rest : besides [("type", .text "uniform"), ("min", v)] = [("min", v)] := rfl
  have unkept : ∀ field ∈ [("min", v)], field.1 ≠ "name" := by simp
  have isUniform : Kind.ofName? "uniform" = some .uniform := rfl
  have counts : counted [("min", v)] = [("min", v)] := rfl
  rw [result_ofConfig_record rfl, rest, result_make_text unkept, isUniform]
  dsimp only
  rw [ofParameters_eq, counts, Value.naming_of_trouble nested]
  simp [hasParameter, Kind.parameters, shortName, update, unread]

section

attribute [local instance] Machine.standard

/-- Every exception occurs. -/
theorem ofConfig_record_exceptions :
    (ofConfig (.record (ofFields [("type", .text "uniform"), ("name", .int 1)]))).result =
      .error (.unfit .reservedName) ∧
    (ofConfig (.record (ofFields [("type", .text "uniform"), ("min", .int (10 ^ 400))]))).result =
      .error .overflow ∧
    (ofConfig (.record (ofFields
        [("type", .text "uniform"), ("min", Value.null.wrapped 960)]))).result =
      .error .tooNested := by
  refine ⟨?_, result_ofConfig_beyond (by decide +kernel), result_ofConfig_nested ?_ ?_⟩
  · rw [result_ofConfig_record rfl]
    exact result_make_of_reserved ⟨_, List.mem_cons_self, rfl⟩
  · exact Value.trouble?_record_wrapped _ _ le_rfl
  · exact Value.toReal_wrapped _ (by decide)

end

end

end Distribution

end Reckon
