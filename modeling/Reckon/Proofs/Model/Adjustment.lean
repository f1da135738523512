import Reckon.Proofs.Distribution.Record
import Reckon.Proofs.Model.Coherence

/-!
Assignments of some parameters of the distribution that a variable has.

Such an assignment writes the distribution as a record, puts the parameters in and reads it again.
It changes these parameters, leaves every other one as the double that it stands for, and changes
nothing else, so that the last value given for a parameter counts,
and assignments of different parameters or to different variables can trade places.
-/

set_option autoImplicit false

namespace Reckon

open Reckon.Distribution Entries

/-- Parameters of a kind, each given once and as something that is read as a number. -/
structure Adjustment (kind : Kind) where
  fields : List (String × Value)
  distinct : (fields.map Prod.fst).Nodup
  listed : ∀ field ∈ fields, field.1 ∈ kind.parameters
  readable : ∀ field ∈ fields, ∃ x, field.2.toReal = .ok x

namespace Adjustment

variable {kind : Kind} {P Q : Adjustment kind} {d e f : Distribution}

def names (P : Adjustment kind) : List String :=
  P.fields.map Prod.fst

def entries (P : Adjustment kind) : Entries :=
  ofFields P.fields

/-- The second distribution is the first one with the parameters set. The others have their values,
as doubles. -/
structure Turns (P : Adjustment kind) (d e : Distribution) : Prop where
  sameKind : e.kind = d.kind
  changed : ∀ field ∈ P.fields, ∃ x, field.2.toReal = .ok x ∧ e.value? field.1 = some (.real x)
  kept : ∀ parameter ∈ d.kind.parameters, parameter ∉ P.names →
    e.value? parameter = d.inDoubles.value? parameter

/-! ## What a parameter is set to -/

theorem given?_fields (P : Adjustment kind) (parameter : String) :
    given? P.fields parameter = P.fields.lookup parameter :=
  given?_of_listed (fun field member => listedName_of_mem (P.listed field member)) P.distinct
    parameter

theorem turns_iff (isKind : d.kind = kind) :
    P.Turns d e ↔ e.kind = d.kind ∧
      ∀ parameter ∈ d.kind.parameters,
        e.value? parameter = d.inDoubles.valueWith P.fields parameter := by
  constructor
  · intro turns
    refine ⟨turns.sameKind, fun parameter has => ?_⟩
    rw [valueWith, given?_fields]
    split
    · next value found =>
      obtain ⟨x, reads, isValue⟩ := turns.changed _ (mem_of_lookup found)
      rw [isValue, reads]
      rfl
    · next none => exact turns.kept parameter has (lookup_eq_none_iff.mp none)
  · rintro ⟨sameKind, values⟩
    refine ⟨sameKind, fun field member => ?_, fun parameter has missing => ?_⟩
    · obtain ⟨x, reads⟩ := P.readable field member
      refine ⟨x, reads, ?_⟩
      rw [values field.1 (isKind ▸ P.listed field member), valueWith, given?_fields,
        lookup_of_mem P.distinct member]
      dsimp only
      rw [reads]
      rfl
    · rw [values parameter has, valueWith, given?_fields, lookup_eq_none_iff.mpr missing]

theorem Turns.unique (isKind : d.kind = kind) (turns : P.Turns d e) (other : P.Turns d f) :
    e = f := by
  obtain ⟨sameKind, values⟩ := (turns_iff isKind).mp turns
  obtain ⟨otherKind, otherValues⟩ := (turns_iff isKind).mp other
  apply ext_value? (sameKind.trans otherKind.symm)
  intro parameter has
  rw [sameKind] at has
  rw [values parameter has, otherValues parameter has]

/-! ## One adjustment after the other -/

/-- The parameters with further ones, which count where both give one. -/
def override (P Q : Adjustment kind) : Adjustment kind where
  fields := Entries.override P.fields Q.fields
  distinct := nodup_override P.distinct Q.fields
  listed field member := by
    rcases mem_override P.distinct member with before | given
    · exact P.listed field before
    · exact Q.listed field given
  readable field member := by
    rcases mem_override P.distinct member with before | given
    · exact P.readable field before
    · exact Q.readable field given

theorem entries_override (P Q : Adjustment kind) :
    (P.override Q).entries = P.entries.merge Q.entries :=
  (merge_eq_override P.fields Q.fields).symm

theorem given?_override (P Q : Adjustment kind) (parameter : String) :
    given? (P.override Q).fields parameter =
      (given? Q.fields parameter).or (given? P.fields parameter) := by
  rw [given?_fields, given?_fields, given?_fields, override, lookup_override,
    lookup_reverse Q.distinct]

theorem map_valueWith (d : Distribution) (fields : List (String × Value)) (parameter : String) :
    (d.inDoubles.valueWith fields parameter).map (fun value => .real value.toFloat) =
      d.inDoubles.valueWith fields parameter := by
  rw [valueWith]
  split
  · rw [Option.map_map]
    rfl
  · rw [← value?_inDoubles, inDoubles_inDoubles]

theorem Turns.trans (isKind : d.kind = kind) (first : P.Turns d e) (second : Q.Turns e f) :
    (P.override Q).Turns d f := by
  obtain ⟨sameKind, values⟩ := (turns_iff isKind).mp first
  obtain ⟨sameKindNext, valuesNext⟩ := (turns_iff (sameKind.trans isKind)).mp second
  refine (turns_iff isKind).mpr ⟨sameKindNext.trans sameKind, fun parameter has => ?_⟩
  rw [valuesNext parameter (sameKind ▸ has), valueWith, valueWith, given?_override]
  cases given? Q.fields parameter with
  | some value => rfl
  | none =>
    have set := map_valueWith d P.fields parameter
    rw [← values parameter has, ← value?_inDoubles] at set
    exact set.trans (values parameter has)

theorem turns_override_comm (isKind : d.kind = kind) (apart : P.names.Disjoint Q.names) :
    (P.override Q).Turns d e ↔ (Q.override P).Turns d e := by
  have same : d.inDoubles.valueWith (P.override Q).fields =
      d.inDoubles.valueWith (Q.override P).fields := by
    funext parameter
    rw [valueWith, valueWith, given?_override, given?_override, given?_fields, given?_fields]
    by_cases given : parameter ∈ P.names
    · have missing : Q.fields.lookup parameter = none := lookup_eq_none_iff.mpr (apart given)
      rw [missing, Option.none_or, Option.or_none]
    · have missing : P.fields.lookup parameter = none := lookup_eq_none_iff.mpr given
      rw [missing, Option.none_or, Option.or_none]
  rw [turns_iff isKind, turns_iff isKind, same]

/-! ## Records with an adjustment put in -/

def whole (d : Distribution) : Adjustment d.kind where
  fields := d.given
  distinct := by
    rw [names_given]
    exact nodup_parameters d.kind
  listed field member := by
    rw [← names_given]
    exact List.mem_map_of_mem member
  readable field member := by
    obtain ⟨⟨name, x⟩, _, rfl⟩ := List.mem_map.mp member
    exact ⟨x.toFloat, rfl⟩

theorem valueWith_whole (d usual : Distribution) {parameter : String}
    (has : parameter ∈ d.kind.parameters) :
    usual.valueWith (whole d).fields parameter = d.inDoubles.value? parameter := by
  obtain ⟨x, isValue⟩ := exists_value? has
  have found : (whole d).fields.lookup parameter = some (.real x.toFloat) := by
    rw [whole, lookup_given, isValue]
    rfl
  rw [valueWith, given?_fields, found, value?_inDoubles, isValue]
  rfl

theorem merge_config (P : Adjustment d.kind) :
    d.config.merge P.entries =
      ofFields (("type", .text d.kind.name) :: ((whole d).override P).fields) := by
  have apart : ∀ field ∈ P.fields, field.1 ≠ "type" := fun field member =>
    ne_type_of_mem (P.listed field member)
  rw [config_eq, entries, merge_eq_override, override_cons apart]
  rfl

/-- The record of a distribution with parameters put in makes the distribution with these parameters
set. -/
theorem exists_ofRecord [Machine] (P : Adjustment d.kind) :
    ∃ e, (ofRecord (d.config.merge P.entries)).result = .ok e ∧ P.Turns d e := by
  have known : ∀ field ∈ ((whole d).override P).fields, listedName field.1 ∈ d.kind.parameters := by
    intro field member
    have has := ((whole d).override P).listed field member
    rwa [listedName_of_mem has]
  have readable : ∀ parameter value, given? ((whole d).override P).fields parameter = some value →
      ∃ x, value.toReal = .ok x := by
    intro parameter value given
    obtain ⟨field, member, _, rfl⟩ := mem_of_given? given
    exact ((whole d).override P).readable field member
  -- the usual distribution of the kind is left with nothing of its own, as all parameters are given
  obtain ⟨e, made⟩ := exists_ofParameters known readable
  obtain ⟨sameKind, describes⟩ := describes_of_ofParameters made
  refine ⟨e, ofRecord_eq_ok_iff.mpr ⟨?_, _, ?_, describes⟩, (turns_iff rfl).mpr ⟨sameKind, ?_⟩⟩
  · rw [merge_config, get?_ofFields, List.lookup_cons_self, sameKind]
    rfl
  · rw [merge_config]
    exact without_first fun field member =>
      ne_type_of_mem (((whole d).override P).listed field member)
  · intro parameter has
    rw [describes.values parameter (sameKind ▸ has), valueWith, valueWith, given?_override]
    cases given? P.fields parameter with
    | some value => rfl
    | none => exact valueWith_whole d _ has

end Adjustment

/-! ## Models -/

namespace Model

/-- The second model binds the name to the distribution, and nothing else of it is changed. -/
structure Rebinds (m : Model) (bound : String) (d : Distribution) (next : Model) : Prop where
  name : next.name = m.name
  formula : next.formula = m.formula
  expr : next.expr = m.expr
  names : next.bindings.names = m.bindings.names
  found : next.bindings.find? bound = some d
  others : ∀ other, other ≠ bound → next.bindings.find? other = m.bindings.find? other

/-- Assigns parameters of the distribution that a variable has. -/
def adjust [Machine] {kind : Kind} (name : String) (P : Adjustment kind) : Change Model Unit :=
  assignNamed name .null P.entries

variable {m : Model} {name other : String} {kind : Kind} {d e : Distribution}

theorem rebinds_set (bound : name ∈ m.bindings.names) (d : Distribution) :
    Rebinds m name d { m with bindings := m.bindings.set name d } where
  name := rfl
  formula := rfl
  expr := rfl
  names := Bindings.names_set_of_mem bound
  found := by rw [Bindings.find?_set, if_pos rfl]
  others other differs := by rw [Bindings.find?_set, if_neg differs]

theorem not_kept_of_mem {parameter : String} (has : parameter ∈ kind.parameters) :
    parameter ∉ keptNames := by
  revert parameter
  cases kind <;> decide

theorem adjust_eq [Machine] (name : String) (P : Adjustment kind) :
    adjust name P = assign name (.parameters P.entries) := by
  refine assignNamed_of_free (fun kept isKept => ?_) name .null
  rw [Adjustment.entries, get?_ofFields, lookup_eq_none_iff]
  intro given
  obtain ⟨field, member, rfl⟩ := List.mem_map.mp given
  exact not_kept_of_mem (P.listed field member) isKept

section

variable [Machine] (found : m.bindings.find? name = some d) (isKind : d.kind = kind)

include found isKind

theorem exists_leads_adjust (P : Adjustment kind) :
    ∃ e, P.Turns d e ∧
      (adjust name P).Leads m () { m with bindings := m.bindings.set name e } := by
  subst isKind
  obtain ⟨e, made, turns⟩ := P.exists_ofRecord
  rw [adjust_eq]
  exact ⟨e, turns, leads_assign found made⟩

theorem exists_leads_twice (P Q : Adjustment kind) :
    ∃ f, (P.override Q).Turns d f ∧ (do adjust name P; adjust name Q).Leads m ()
      { m with bindings := m.bindings.set name f } := by
  obtain ⟨e, turns, leads⟩ := exists_leads_adjust found isKind P
  have foundNext : (m.bindings.set name e).find? name = some e := by
    rw [Bindings.find?_set, if_pos rfl]
  obtain ⟨f, turnsNext, leadsNext⟩ := exists_leads_adjust
    (m := { m with bindings := m.bindings.set name e }) foundNext (turns.sameKind.trans isKind) Q
  rw [Bindings.set_set] at leadsNext
  exact ⟨f, turns.trans isKind turnsNext, leads.bind leadsNext⟩

end

theorem exists_leads_pair [Machine] (found : m.bindings.find? name = some d)
    (foundOther : m.bindings.find? other = some e) (differ : other ≠ name)
    (P : Adjustment d.kind) (Q : Adjustment e.kind) :
    ∃ d' e', P.Turns d d' ∧ Q.Turns e e' ∧ (do adjust name P; adjust other Q).Leads m ()
      { m with bindings := (m.bindings.set name d').set other e' } := by
  obtain ⟨d', turns, leads⟩ := exists_leads_adjust found rfl P
  -- the second adjustment finds the distribution that the model had from the start
  have foundNext : (m.bindings.set name d').find? other = some e := by
    rw [Bindings.find?_set, if_neg differ, foundOther]
  obtain ⟨e', turnsOther, leadsOther⟩ := exists_leads_adjust
    (m := { m with bindings := m.bindings.set name d' }) foundNext rfl Q
  exact ⟨d', e', turns, turnsOther, leads.bind leadsOther⟩

theorem exists_leads_comm [Machine] (distinct : m.bindings.names.Nodup)
    (found : m.bindings.find? name = some d) (foundOther : m.bindings.find? other = some e)
    (differ : other ≠ name) (P : Adjustment d.kind) (Q : Adjustment e.kind) :
    ∃ next, (do adjust name P; adjust other Q).Leads m () next ∧
      (do adjust other Q; adjust name P).Leads m () next := by
  obtain ⟨d', e', turns, turnsOther, leads⟩ := exists_leads_pair found foundOther differ P Q
  obtain ⟨e'', d'', turnsOther', turns', leadsBack⟩ :=
    exists_leads_pair foundOther found differ.symm Q P
  -- both orders set the same two distributions, so only the order of setting is left
  obtain rfl := turns.unique rfl turns'
  obtain rfl := turnsOther.unique rfl turnsOther'
  have same := Bindings.set_comm distinct (Bindings.mem_names_of_find? found)
    (Bindings.mem_names_of_find? foundOther) differ d' e'
  rw [same] at leads
  exact ⟨_, leads, leadsBack⟩

/-- Parameters that are assigned to a variable set these parameters of its distribution and leave
everything else alone, but for the doubles that its other parameters stand for. Further ones come to
all of them at once, with the later ones counting where both are given, and neither different
parameters nor different variables depend on the order. -/
theorem adjust_spec [Machine] (reachable : Reachable m) (isVariable : name ∈ m.expr.variableNames) :
    ∃ d, m.bindings.find? name = some d ∧
      (∀ P : Adjustment d.kind, ∃ e next, (adjust name P).Leads m () next ∧ P.Turns d e ∧
        Rebinds m name e next) ∧
      (∀ P Q : Adjustment d.kind, ∃ next, (do adjust name P; adjust name Q).Leads m () next ∧
        (assignNamed name .null (P.entries.merge Q.entries)).Leads m () next) ∧
      (∀ P Q : Adjustment d.kind, P.names.Disjoint Q.names →
        ∃ next, (do adjust name P; adjust name Q).Leads m () next ∧
          (do adjust name Q; adjust name P).Leads m () next) ∧
      ∀ other e, other ≠ name → m.bindings.find? other = some e →
        ∀ (P : Adjustment d.kind) (Q : Adjustment e.kind),
          ∃ next, (do adjust name P; adjust other Q).Leads m () next ∧
            (do adjust other Q; adjust name P).Leads m () next := by
  have coherent := reachable.coherent
  obtain ⟨d, found⟩ := coherent.find?_of_mem isVariable
  refine ⟨d, found, fun P => ?_, fun P Q => ?_, fun P Q apart => ?_,
    fun other e differ foundOther => exists_leads_comm coherent.nodup_names found foundOther differ⟩
  · obtain ⟨e, turns, leads⟩ := exists_leads_adjust found rfl P
    exact ⟨e, _, leads, turns, rebinds_set (Bindings.mem_names_of_find? found) e⟩
  · obtain ⟨f, turns, leads⟩ := exists_leads_twice found rfl P Q
    obtain ⟨g, turnsAtOnce, leadsAtOnce⟩ := exists_leads_adjust found rfl (P.override Q)
    obtain rfl := turns.unique rfl turnsAtOnce
    rw [adjust, Adjustment.entries_override] at leadsAtOnce
    exact ⟨_, leads, leadsAtOnce⟩
  · obtain ⟨f, turns, leads⟩ := exists_leads_twice found rfl P Q
    obtain ⟨g, turnsBack, leadsBack⟩ := exists_leads_twice found rfl Q P
    obtain rfl := turns.unique rfl ((Adjustment.turns_override_comm rfl apart).mpr turnsBack)
    exact ⟨_, leads, leadsBack⟩

section

attribute [local instance] Machine.standard

def raised : Adjustment .lognormal where
  fields := [("low", .int 3)]
  distinct := by decide
  listed := by decide
  readable := List.forall_mem_singleton.mpr ⟨3, by rfl⟩

def widened : Adjustment .lognormal where
  fields := [("high", .text "40.5")]
  distinct := by decide
  listed := by decide
  readable := List.forall_mem_singleton.mpr ⟨_, by rfl⟩

def halved : Adjustment .poisson where
  fields := [("lambda", .real 1.5)]
  distinct := by decide
  listed := by decide
  readable := List.forall_mem_singleton.mpr ⟨1.5, rfl⟩

/-- Adjustments of both percentiles of one variable and of the rate of the other one. -/
theorem adjust_spec_field :
    Reachable field ∧ "width" ∈ field.expr.variableNames ∧
    field.bindings.find? "width" = some (.lognormal 1 2) ∧
    field.bindings.find? "height" = some (.poisson (.real 3)) ∧
    (∃ e next, (adjust "width" raised).Leads field () next ∧ raised.Turns (.lognormal 1 2) e ∧
      Rebinds field "width" e next) ∧
    (∃ next, (do adjust "width" raised; adjust "width" widened).Leads field () next ∧
      (assignNamed "width" .null (raised.entries.merge widened.entries)).Leads field () next) ∧
    raised.names.Disjoint widened.names ∧
    (∃ next, (do adjust "width" raised; adjust "width" widened).Leads field () next ∧
      (do adjust "width" widened; adjust "width" raised).Leads field () next) ∧
    ∃ next, (do adjust "width" raised; adjust "height" halved).Leads field () next ∧
      (do adjust "height" halved; adjust "width" raised).Leads field () next := by
  have isVariable : "width" ∈ field.expr.variableNames := by decide +kernel
  have isWidth : field.bindings.find? "width" = some (.lognormal 1 2) := by rfl
  have isHeight : field.bindings.find? "height" = some (.poisson (.real 3)) := by rfl
  have apart : raised.names.Disjoint widened.names := List.disjoint_singleton.mpr (by decide)
  obtain ⟨d, found, one, both, swapped, others⟩ := adjust_spec reachable_field isVariable
  obtain rfl := Option.some.inj (isWidth.symm.trans found)
  exact ⟨reachable_field, isVariable, isWidth, isHeight, one raised, both raised widened, apart,
    swapped raised widened apart, others "height" _ (by decide) isHeight raised halved⟩

end

end Model

end Reckon
