import Mathlib.Data.List.Nodup
import Reckon.Value.Reading

/-!
Records whose keys are texts.

For them looking up, leaving out and putting in are what they are for a list of names.
-/

set_option autoImplicit false

namespace Reckon

@[simp] theorem Value.same_text (a b : String) : (Value.text a).same (.text b) = (a == b) := by
  simp [Value.same, Value.unlabelled, Value.sameAs]

theorem Value.same_text_iff {v : Value} {s : String} :
    v.same (.text s) = true ↔ v.unlabelled = .text s := by
  unfold same
  rw [show (Value.text s).unlabelled = .text s by simp [unlabelled]]
  cases v.unlabelled <;> simp [sameAs]

namespace Entries

def ofFields (fields : List (String × Value)) : Entries :=
  fields.map fun (name, value) => (.text name, value)

variable {fields : List (String × Value)} {name key : String} {value : Value}

theorem map_ofFields {f : Value × Value → String × Value}
    (reads : ∀ name value, f (.text name, value) = (name, value)) :
    (ofFields fields).map f = fields := by
  rw [ofFields, List.map_map]
  exact (List.map_congr_left fun field _ => reads field.1 field.2).trans (List.map_id fields)

@[simp] theorem ofFields_nil : ofFields [] = [] := rfl

@[simp] theorem ofFields_cons (name : String) (value : Value) (fields : List (String × Value)) :
    ofFields ((name, value) :: fields) = (.text name, value) :: ofFields fields := rfl

theorem get?_ofFields (fields : List (String × Value)) (key : String) :
    (ofFields fields).get? key = fields.lookup key := by
  induction fields with
  | nil => rfl
  | cons field fields ih =>
    obtain ⟨name, value⟩ := field
    by_cases same : name = key
    · subst same
      simp [get?, find?]
    · have differs : (key == name) = false := by simpa using Ne.symm same
      simpa [get?, find?, same, List.lookup_cons, differs] using ih

theorem without_ofFields (fields : List (String × Value)) (key : String) :
    (ofFields fields).without key = ofFields (fields.filter fun field => field.1 != key) := by
  induction fields with
  | nil => rfl
  | cons field fields ih =>
    obtain ⟨name, value⟩ := field
    by_cases same : name = key
    · simpa [without, List.filter_cons, same] using ih
    · simpa [without, List.filter_cons, same] using ih

theorem without_of_absent (absent : ∀ field ∈ fields, field.1 ≠ key) :
    (ofFields fields).without key = ofFields fields := by
  rw [without_ofFields, List.filter_eq_self.mpr]
  simpa using absent

theorem without_first (absent : ∀ field ∈ fields, field.1 ≠ key) :
    (ofFields ((key, value) :: fields)).without key = ofFields fields := by
  have others := without_of_absent absent
  simpa [without, List.filter_cons] using others

theorem put_of_absent (absent : ∀ field ∈ fields, field.1 ≠ key) :
    put (.text key) value (ofFields fields) = ofFields (fields ++ [(key, value)]) := by
  induction fields with
  | nil => rfl
  | cons field fields ih =>
    obtain ⟨name, old⟩ := field
    obtain ⟨differs, absentRest⟩ := List.forall_mem_cons.mp absent
    have differs : (name == key) = false := by simpa using differs
    simp [put, differs, ih absentRest]

theorem merge_cons (entries : Entries) (key value : Value) (further : Entries) :
    merge entries ((key, value) :: further) = merge (put key value entries) further := rfl

theorem merge_ofFields {further : List (String × Value)}
    (distinct : ((fields ++ further).map Prod.fst).Nodup) :
    merge (ofFields fields) (ofFields further) = ofFields (fields ++ further) := by
  -- no field finds its name taken, so each one is put at the end
  induction further generalizing fields with
  | nil => simp [merge]
  | cons field further ih =>
    obtain ⟨name, value⟩ := field
    have absent : ∀ field ∈ fields, field.1 ≠ name := by
      intro field member same
      rw [List.map_append, List.nodup_append] at distinct
      exact distinct.2.2 field.1 (List.mem_map_of_mem member) name (by simp) same
    have distinctRest : ((fields ++ [(name, value)] ++ further).map Prod.fst).Nodup := by
      simpa using distinct
    rw [ofFields_cons, merge_cons, put_of_absent absent, ih distinctRest, List.append_assoc]
    rfl

theorem ofPairs_ofFields (distinct : (fields.map Prod.fst).Nodup) :
    ofPairs (ofFields fields) = ofFields fields := by
  have start : (([] ++ fields).map Prod.fst).Nodup := distinct
  exact merge_ofFields start

/-! ## What all entries have in common -/

/-- All keys have the one property, all values the other one. -/
def Each (isKey isValue : Value → Prop) (entries : Entries) : Prop :=
  ∀ entry ∈ entries, isKey entry.1 ∧ isValue entry.2

section

variable {isKey isValue : Value → Prop} {entries further : Entries} {key value : Value}

theorem Each.put (each : Each isKey isValue entries) (keyed : isKey key) (valued : isValue value) :
    Each isKey isValue (entries.put key value) := by
  induction entries with
  | nil =>
    intro entry member
    rw [List.mem_singleton.mp member]
    exact ⟨keyed, valued⟩
  | cons first entries ih =>
    obtain ⟨old, rest⟩ := List.forall_mem_cons.mp each
    rw [Entries.put]
    split
    · exact List.forall_mem_cons.mpr ⟨⟨old.1, valued⟩, rest⟩
    · exact List.forall_mem_cons.mpr ⟨old, ih rest⟩

theorem Each.merge (each : Each isKey isValue entries) (eachFurther : Each isKey isValue further) :
    Each isKey isValue (entries.merge further) := by
  induction further generalizing entries with
  | nil => exact each
  | cons entry further ih =>
    obtain ⟨⟨keyed, valued⟩, rest⟩ := List.forall_mem_cons.mp eachFurther
    rw [merge_cons]
    exact ih (each.put keyed valued) rest

theorem Each.ofPairs (each : Each isKey isValue entries) :
    Each isKey isValue (Entries.ofPairs entries) := by
  have none : Each isKey isValue [] := List.forall_mem_nil _
  exact none.merge each

theorem Each.without (each : Each isKey isValue entries) (name : String) :
    Each isKey isValue (entries.without name) := by
  intro entry member
  exact each entry (List.mem_of_mem_filter member)

theorem mem_of_get? {name : String} (found : entries.get? name = some value) :
    ∃ key, (key, value) ∈ entries ∧ key.same (.text name) = true := by
  unfold get? at found
  induction entries with
  | nil => cases found
  | cons entry entries ih =>
    obtain ⟨first, given⟩ := entry
    rw [find?] at found
    split at found
    · next same =>
      cases found
      exact ⟨first, List.mem_cons_self, same⟩
    · obtain ⟨key, member, same⟩ := ih found
      exact ⟨key, List.mem_cons_of_mem _ member, same⟩

/-- What is put under a name is found under it, and nothing else is found differently. -/
theorem get?_put (entries : Entries) (name key : String) (value : Value) :
    (entries.put (.text name) value).get? key =
      if name = key then some value else entries.get? key := by
  induction entries with
  | nil => simp [put, get?, find?]
  | cons entry entries ih =>
    obtain ⟨first, given⟩ := entry
    by_cases isName : first.same (.text name) = true
    · -- the entry has the one name, so it has another one only if that is the same
      have isKey : first.same (.text key) = true ↔ name = key := by
        rw [Value.same_text_iff, Value.same_text_iff.mp isName, Value.text.injEq]
      by_cases same : name = key
      · simp [put, get?, find?, isKey.mpr same, same]
      · have differs : first.same (.text key) = false := by simpa using mt isKey.mp same
        simp [put, get?, find?, isName, differs, same]
    · by_cases isKey : first.same (.text key) = true
      · have other : name ≠ key := by
          rintro rfl
          exact isName isKey
        simp [put, get?, find?, isName, isKey, other]
      · simpa [put, get?, find?, isName, isKey] using ih

theorem get?_ne_none {name : String} (member : (.text name, value) ∈ entries) :
    entries.get? name ≠ none := by
  unfold get?
  induction entries with
  | nil => cases member
  | cons entry entries ih =>
    obtain ⟨first, given⟩ := entry
    rw [find?]
    split
    · simp
    · next differs =>
      rcases List.mem_cons.mp member with same | later
      · obtain ⟨rfl, rfl⟩ := Prod.mk.inj same
        simp at differs
      · exact ih later

end

end Entries

end Reckon
