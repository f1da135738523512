import Mathlib.Data.List.Induction
import Reckon.Proofs.Value.Entries

/-!
Fields put into records one after the other.

A record keeps one field for each name, in the place of the first that was given and with the value
of the last.
-/

set_option autoImplicit false

namespace Reckon.Entries

/-- Puts a field in the place of the one with its name, or at the end. -/
def putField (field : String × Value) : List (String × Value) → List (String × Value)
  | [] => [field]
  | first :: rest =>
    if first.1 = field.1 then (first.1, field.2) :: rest else first :: putField field rest

def override (fields further : List (String × Value)) : List (String × Value) :=
  further.foldl (fun all field => putField field all) fields

variable {fields further : List (String × Value)} {name : String} {value : Value}

theorem ofFields_injective : Function.Injective ofFields := by
  intro fields further same
  exact List.map_injective_iff.mpr (fun first second => by simp [Prod.ext_iff]) same

theorem lookup_cons (field : String × Value) (fields : List (String × Value)) (name : String) :
    (field :: fields).lookup name =
      if name = field.1 then some field.2 else fields.lookup name := by
  obtain ⟨first, value⟩ := field
  by_cases same : name = first
  · simp [same]
  · have differs : (name == first) = false := by simpa using same
    simp [List.lookup_cons, differs, same]

theorem lookup_eq_none_iff : fields.lookup name = none ↔ name ∉ fields.map Prod.fst := by
  simp only [List.lookup_eq_none_iff, List.mem_map, not_exists, not_and, bne_iff_ne]
  constructor
  · intro differs field member same
    exact differs field member same.symm
  · intro missing field member same
    exact missing field member same.symm

theorem mem_of_lookup (found : fields.lookup name = some value) : (name, value) ∈ fields := by
  obtain ⟨before, after, rfl, _⟩ := List.lookup_eq_some_iff.mp found
  exact List.mem_append_right before List.mem_cons_self

theorem lookup_of_mem (distinct : (fields.map Prod.fst).Nodup) (member : (name, value) ∈ fields) :
    fields.lookup name = some value := by
  induction fields with
  | nil => cases member
  | cons field fields ih =>
    obtain ⟨fresh, distinctRest⟩ := List.nodup_cons.mp distinct
    rw [lookup_cons]
    rcases List.mem_cons.mp member with rfl | later
    · exact if_pos rfl
    · have differs : name ≠ field.1 := fun same =>
        fresh (same ▸ List.mem_map_of_mem later)
      rw [if_neg differs, ih distinctRest later]

theorem lookup_reverse (distinct : (fields.map Prod.fst).Nodup) (name : String) :
    fields.reverse.lookup name = fields.lookup name := by
  have distinctReverse : (fields.reverse.map Prod.fst).Nodup := by
    rw [List.map_reverse]
    exact List.nodup_reverse.mpr distinct
  cases found : fields.lookup name with
  | none =>
    rw [lookup_eq_none_iff] at found ⊢
    simpa using found
  | some value =>
    exact lookup_of_mem distinctReverse (List.mem_reverse.mpr (mem_of_lookup found))

/-! ## One field -/

theorem put_ofFields (field : String × Value) (fields : List (String × Value)) :
    put (.text field.1) field.2 (ofFields fields) = ofFields (putField field fields) := by
  induction fields with
  | nil => rfl
  | cons first fields ih =>
    obtain ⟨old, value⟩ := first
    rw [ofFields_cons, put, putField, ih]
    by_cases same : old = field.1
    · rw [if_pos (by simp [same]), if_pos same]
      rfl
    · rw [if_neg (by simp [same]), if_neg same]
      rfl

theorem lookup_putField (field : String × Value) (fields : List (String × Value)) (name : String) :
    (putField field fields).lookup name =
      if name = field.1 then some field.2 else fields.lookup name := by
  induction fields with
  | nil => rw [putField, lookup_cons]
  | cons first fields ih =>
    rw [putField]
    split
    · next same =>
      rw [lookup_cons, lookup_cons, same]
      split <;> rfl
    · next differs =>
      rw [lookup_cons, lookup_cons, ih]
      by_cases asked : name = first.1
      · rw [if_pos asked, if_neg (asked ▸ differs), if_pos asked]
      · rw [if_neg asked, if_neg asked]

theorem mem_names_putField (field : String × Value) :
    name ∈ (putField field fields).map Prod.fst ↔
      name = field.1 ∨ name ∈ fields.map Prod.fst := by
  have missing : name ∉ (putField field fields).map Prod.fst ↔
      name ≠ field.1 ∧ name ∉ fields.map Prod.fst := by
    rw [← lookup_eq_none_iff, ← lookup_eq_none_iff, lookup_putField]
    split <;> simp_all
  grind

theorem nodup_putField (distinct : (fields.map Prod.fst).Nodup) (field : String × Value) :
    ((putField field fields).map Prod.fst).Nodup := by
  induction fields with
  | nil => exact List.nodup_singleton field.1
  | cons first fields ih =>
    obtain ⟨fresh, distinctRest⟩ := List.nodup_cons.mp distinct
    rw [putField]
    split
    · exact distinct
    · next differs =>
      refine List.nodup_cons.mpr ⟨?_, ih distinctRest⟩
      rw [mem_names_putField, not_or]
      exact ⟨differs, fresh⟩

/-! ## Fields one after the other -/

theorem merge_eq_override (fields further : List (String × Value)) :
    merge (ofFields fields) (ofFields further) = ofFields (override fields further) := by
  induction further generalizing fields with
  | nil => rfl
  | cons field further ih =>
    rw [ofFields_cons, merge_cons, put_ofFields, ih]
    rfl

theorem ofPairs_eq_override (fields : List (String × Value)) :
    ofPairs (ofFields fields) = ofFields (override [] fields) :=
  merge_eq_override [] fields

theorem lookup_override (fields further : List (String × Value)) (name : String) :
    (override fields further).lookup name =
      (further.reverse.lookup name).or (fields.lookup name) := by
  -- the last field decides, so the induction takes it off
  induction further using List.reverseRecOn with
  | nil => rfl
  | append_singleton further field ih =>
    have last : override fields (further ++ [field]) =
        putField field (override fields further) := by
      simp [override]
    rw [last, lookup_putField, ih, List.reverse_concat, lookup_cons]
    split <;> rfl

theorem nodup_override (distinct : (fields.map Prod.fst).Nodup) (further : List (String × Value)) :
    ((override fields further).map Prod.fst).Nodup := by
  induction further generalizing fields with
  | nil => exact distinct
  | cons field further ih => exact ih (nodup_putField distinct field)

theorem mem_names_override :
    name ∈ (override fields further).map Prod.fst ↔
      name ∈ fields.map Prod.fst ∨ name ∈ further.map Prod.fst := by
  induction further generalizing fields with
  | nil => simp [override]
  | cons field further ih =>
    have first : name ∈ (override (putField field fields) further).map Prod.fst ↔
        name ∈ (putField field fields).map Prod.fst ∨ name ∈ further.map Prod.fst := ih
    rw [mem_names_putField] at first
    rw [List.map_cons, List.mem_cons, ← or_assoc, or_comm (b := name = field.1)]
    exact first

theorem mem_override {field : String × Value} (distinct : (fields.map Prod.fst).Nodup)
    (member : field ∈ override fields further) : field ∈ fields ∨ field ∈ further := by
  have found := lookup_of_mem (nodup_override distinct further) member
  rw [lookup_override, Option.or_eq_some_iff] at found
  rcases found with given | ⟨_, before⟩
  · exact .inr (List.mem_reverse.mp (mem_of_lookup given))
  · exact .inl (mem_of_lookup before)

theorem override_cons {field : String × Value} (apart : ∀ other ∈ further, other.1 ≠ field.1) :
    override (field :: fields) further = field :: override fields further := by
  induction further generalizing fields with
  | nil => rfl
  | cons other further ih =>
    obtain ⟨differs, apartRest⟩ := List.forall_mem_cons.mp apart
    have kept : putField other (field :: fields) = field :: putField other fields := by
      rw [putField, if_neg differs.symm]
    calc override (field :: fields) (other :: further)
        = override (putField other (field :: fields)) further := rfl
      _ = field :: override (putField other fields) further := by rw [kept, ih apartRest]

end Reckon.Entries
