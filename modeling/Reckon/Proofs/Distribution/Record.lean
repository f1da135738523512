import Reckon.Proofs.Distribution.Settings

/-!
Distributions written as records and read back.

A record gives every parameter under the name by which its kind lists it, so that nothing of the
usual distribution of the kind is left when the record has been read. It gives doubles, which is all
that the distribution that is read back differs in.
-/

set_option autoImplicit false

namespace Reckon.Distribution

open Entries

def given (d : Distribution) : List (String × Value) :=
  (d.kind.parameters.zip d.values).map fun (name, value) => (name, .real value.toFloat)

theorem config_eq (d : Distribution) :
    d.config = ofFields (("type", .text d.kind.name) :: d.given) := by
  rw [config, ofFields_cons, given, ofFields, List.map_map]
  rfl

theorem setBy_given (d : Distribution) : d.inDoubles.SetBy d.given := by
  cases d <;> rfl

theorem get?_type (d : Distribution) : d.config.get? "type" = some (.text d.kind.name) := by
  rw [config_eq, get?_ofFields, List.lookup_cons_self]

theorem without_type (d : Distribution) : d.config.without "type" = ofFields d.given := by
  rw [config_eq]
  exact without_first fun field member => (d.setBy_given.not_kept member).1

theorem without_name (d : Distribution) (name : String) :
    Entries.without ((.text "name", .text name) :: d.config) "name" = d.config := by
  have others : ∀ field ∈ ("type", Value.text d.kind.name) :: d.given, field.1 ≠ "name" :=
    List.forall_mem_cons.mpr ⟨by simp, fun field member => (d.setBy_given.not_kept member).2⟩
  rw [config_eq]
  exact without_first others

/-- A distribution is read back in doubles from the record that describes it. -/
theorem ofRecord_config [Machine] (d : Distribution) :
    (ofRecord d.config).result = .ok d.inDoubles := by
  rw [ofRecord, get?_type, without_type, Option.getD_some, ← d.kind_inDoubles]
  exact result_make d.setBy_given (.refl _)

theorem lookup_map_real (pairs : List (String × Parameter)) (name : String) :
    (pairs.map fun (name, x) => (name, Value.real x.toFloat)).lookup name =
      (pairs.lookup name).map fun x => .real x.toFloat := by
  induction pairs with
  | nil => rfl
  | cons pair pairs ih =>
    obtain ⟨first, x⟩ := pair
    by_cases same : name = first
    · simp [same]
    · have differs : (name == first) = false := by simpa using same
      simpa [List.lookup_cons, differs] using ih

/-- A written record has the kind and the parameters of the distribution for its keys. -/
theorem keys_config (d : Distribution) :
    d.config.map Prod.fst = .text "type" :: d.kind.parameters.map .text := by
  cases d <;> rfl

theorem names_given (d : Distribution) : d.given.map Prod.fst = d.kind.parameters := by
  cases d <;> rfl

theorem lookup_given (d : Distribution) (parameter : String) :
    d.given.lookup parameter = (d.value? parameter).map fun x => .real x.toFloat :=
  lookup_map_real _ parameter

theorem get?_config {d : Distribution} {parameter : String}
    (has : parameter ∈ d.kind.parameters) :
    d.config.get? parameter = (d.value? parameter).map fun x => .real x.toFloat := by
  rw [config_eq, get?_ofFields, lookup_cons, if_neg (ne_type_of_mem has), lookup_given]

theorem ofConfig_record_config [Machine] (d : Distribution) :
    (ofConfig (.record d.config)).result = .ok d.inDoubles :=
  d.ofRecord_config

end Reckon.Distribution
