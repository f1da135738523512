import Mathlib.Data.List.Nodup
import Reckon.Proofs.Distribution.Parameters

/-!
Distributions made from their kind and all of their parameters.

Each of them is given once, so their order does not matter, and as all of them are given, nothing of
the usual distribution of the kind is left.
-/

set_option autoImplicit false

namespace Reckon.Distribution

open Entries

/-- The parameters under their short names, with their values. -/
def settings (d : Distribution) : List (String × Parameter) :=
  (d.kind.parameters.map shortName).zip d.values

/-- What a field sets: a parameter under its short name, to the number that the value is read as. -/
def setting (field : String × Value) : String × Option Parameter :=
  (shortName field.1, field.2.toReal.toOption.map .real)

/-- The fields set every parameter to its value, in the order of the parameters. -/
def SetBy (d : Distribution) (fields : List (String × Value)) : Prop :=
  fields.map setting = d.settings.map fun (name, x) => (name, some x)

/-! ## Names of fields -/

/-- The names under which the parameters of a kind can be given. -/
def spellings (kind : Kind) : List String :=
  "lambda" :: kind.parameters.map shortName

theorem mem_spellings {kind : Kind} {name : String}
    (listed : shortName name ∈ kind.parameters.map shortName) : name ∈ spellings kind := by
  rw [shortName] at listed
  split at listed
  · next long =>
    rw [long]
    exact List.mem_cons_self
  · exact List.mem_cons_of_mem _ listed

theorem not_kept_of_spelling (kind : Kind) :
    ∀ name ∈ spellings kind, name ≠ "type" ∧ name ≠ "name" := by
  cases kind <;> decide

namespace SetBy

variable {d : Distribution} {fields : List (String × Value)} (set : d.SetBy fields)

include set

theorem shortNames_eq :
    fields.map (fun field => shortName field.1) = d.kind.parameters.map shortName := by
  have names := congrArg (List.map Prod.fst) set
  rw [List.map_map, List.map_map] at names
  refine names.trans ?_
  cases d <;> rfl

theorem nodup : (fields.map fun field => shortName field.1).Nodup := by
  rw [set.shortNames_eq]
  generalize d.kind = kind
  cases kind <;> decide

variable {field : String × Value} (member : field ∈ fields)

include member

theorem mem_parameters : shortName field.1 ∈ d.kind.parameters.map shortName := by
  rw [← set.shortNames_eq]
  exact List.mem_map.mpr ⟨field, member, rfl⟩

theorem readable : ∃ x, field.2.toReal = .ok x := by
  have isSetting : setting field ∈ fields.map setting := List.mem_map_of_mem member
  rw [set] at isSetting
  obtain ⟨⟨name, x⟩, _, same⟩ := List.mem_map.mp isSetting
  have number : field.2.toReal.toOption.map .real = some x := (Prod.mk.inj same).2.symm
  cases read : field.2.toReal with
  | ok y => exact ⟨y, rfl⟩
  | error failure =>
    rw [read] at number
    cases number

theorem not_kept : field.1 ≠ "type" ∧ field.1 ≠ "name" :=
  not_kept_of_spelling d.kind _ (mem_spellings (set.mem_parameters member))

end SetBy

/-! ## Making distributions -/

theorem SetBy.describes {d : Distribution} {fields given : List (String × Value)}
    (set : d.SetBy given) (perm : fields.Perm given) : Describes fields d := by
  have distinct : (fields.map fun field => shortName field.1).Nodup :=
    (perm.map _).nodup_iff.mpr set.nodup
  refine ⟨fun field member => ?_, fun parameter has => ?_⟩
  · have listed := set.mem_parameters (perm.mem_iff.mp member)
    exact hasParameter_shortName.mp (List.contains_iff_mem.mpr listed)
  · obtain ⟨x, isValue⟩ := exists_value? has
    -- the parameter is among the settings, so some field gives it its value
    have isSetting : (shortName parameter, some x) ∈ given.map setting := by
      obtain ⟨before, after, pairs, _⟩ := List.lookup_eq_some_iff.mp isValue
      have member : (parameter, x) ∈ d.kind.parameters.zip d.values := by
        rw [pairs]
        exact List.mem_append_right before List.mem_cons_self
      rw [set, settings, List.zip_map_left, List.map_map]
      exact List.mem_map.mpr ⟨_, member, rfl⟩
    obtain ⟨field, member, same⟩ := List.mem_map.mp isSetting
    obtain ⟨sameName, reads⟩ := Prod.mk.inj same
    have isListed := shortName_eq_iff.mp sameName
    rw [listedName_of_mem has] at isListed
    have gives := given?_of_mem distinct (perm.mem_iff.mpr member)
    rw [isListed] at gives
    rw [valueWith, gives, isValue, ← reads]

/-- The kind and all of the parameters, in any order, make the distribution. -/
theorem result_make [Machine] {d : Distribution} {fields given : List (String × Value)}
    (set : d.SetBy given) (perm : fields.Perm given) :
    (make (.text d.kind.name) (ofFields fields)).result = .ok d :=
  make_eq_ok_iff.mpr ⟨rfl, fields, rfl, set.describes perm⟩

end Reckon.Distribution
