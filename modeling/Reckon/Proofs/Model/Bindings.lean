import Mathlib.Data.List.Nodup
import Reckon.Formula.Expr
import Reckon.Model.Bindings

/-!
Bindings as finite maps in an order.

Setting a name keeps its place or appends it, and a list of names without repetition refreshes the
bindings to exactly these names.
-/

set_option autoImplicit false

namespace Reckon

namespace Bindings

variable {b : Bindings} {name other : String} {d : Distribution}

@[simp] theorem names_nil : names [] = [] := rfl

@[simp] theorem names_append (b c : Bindings) : names (b ++ c) = b.names ++ c.names :=
  List.map_append

@[simp] theorem names_cons (name : String) (d : Distribution) (b : Bindings) :
    names ((name, d) :: b) = name :: b.names := rfl

theorem find?_cons (first name : String) (d : Distribution) (b : Bindings) :
    find? ((first, d) :: b) name = if name = first then some d else b.find? name := by
  by_cases same : name = first
  · simp [find?, same]
  · have differs : (name == first) = false := by simpa using same
    simp [find?, List.lookup_cons, differs, same]

theorem find?_eq_none_iff : b.find? name = none ↔ name ∉ b.names := by
  simp only [find?, names, List.lookup_eq_none_iff, List.mem_map, not_exists, not_and, bne_iff_ne]
  constructor
  · intro differs entry member same
    exact differs entry member same.symm
  · intro missing entry member same
    exact missing entry member same.symm

theorem mem_names_of_find? (found : b.find? name = some d) : name ∈ b.names := by
  by_contra missing
  rw [find?_eq_none_iff.mpr missing] at found
  cases found

theorem exists_find? (bound : name ∈ b.names) : ∃ d, b.find? name = some d := by
  cases found : b.find? name with
  | none => exact absurd bound (find?_eq_none_iff.mp found)
  | some d => exact ⟨d, rfl⟩

/-! ## Setting a name -/

theorem set_of_notMem (missing : name ∉ b.names) : set name d b = b ++ [(name, d)] := by
  induction b with
  | nil => rfl
  | cons entry b ih =>
    obtain ⟨first, d'⟩ := entry
    rw [names_cons, List.mem_cons, not_or] at missing
    rw [set, if_neg fun same => missing.1 same.symm, ih missing.2, List.cons_append]

theorem names_set_of_mem (bound : name ∈ b.names) : names (set name d b) = b.names := by
  induction b with
  | nil => cases bound
  | cons entry b ih =>
    obtain ⟨first, d'⟩ := entry
    by_cases same : first = name
    · simp [set, same]
    · have boundLater : name ∈ names b := by
        rw [names_cons, List.mem_cons] at bound
        exact bound.resolve_left fun found => same found.symm
      simp [set, same, ih boundLater]

theorem find?_set (name other : String) (d : Distribution) (b : Bindings) :
    (set name d b).find? other = if other = name then some d else b.find? other := by
  induction b with
  | nil => rw [set, find?_cons]
  | cons entry b ih =>
    obtain ⟨first, d'⟩ := entry
    by_cases same : first = name
    · subst same
      rw [set, if_pos rfl, find?_cons, find?_cons]
      split <;> rfl
    · rw [set, if_neg same, find?_cons, find?_cons, ih]
      by_cases asked : other = first
      · have differs : other ≠ name := fun found => same (asked ▸ found)
        rw [if_pos asked, if_neg differs, if_pos asked]
      · rw [if_neg asked, if_neg asked]

theorem set_set (name : String) (d e : Distribution) (b : Bindings) :
    set name e (set name d b) = set name e b := by
  induction b with
  | nil => simp [set]
  | cons entry b ih =>
    obtain ⟨first, d'⟩ := entry
    by_cases same : first = name
    · simp [set, same]
    · simp [set, same, ih]

/-! ### Setting every name -/

theorem set_append_cons {front : Bindings} (missing : name ∉ front.names) (old : Distribution)
    (back : Bindings) :
    set name d (front ++ (name, old) :: back) = front ++ (name, d) :: back := by
  induction front with
  | nil => simp [set]
  | cons entry front ih =>
    obtain ⟨first, d'⟩ := entry
    rw [names_cons, List.mem_cons, not_or] at missing
    rw [List.cons_append, set, if_neg fun same => missing.1 same.symm, ih missing.2,
      List.cons_append]

/-- The bindings with further ones set one after the other. -/
def setAll (b further : Bindings) : Bindings :=
  further.foldl (fun all entry => set entry.1 entry.2 all) b

theorem setAll_append {front back further : Bindings} (same : back.names = further.names)
    (distinct : (front.names ++ further.names).Nodup) :
    setAll (front ++ back) further = front ++ further := by
  -- the front holds what has been set already
  induction further generalizing front back with
  | nil =>
    obtain rfl : back = [] := List.map_eq_nil_iff.mp same
    rfl
  | cons entry further ih =>
    obtain ⟨name, d⟩ := entry
    obtain ⟨⟨name', old⟩, back, rfl, isName, sameRest⟩ := List.map_eq_cons_iff.mp same
    obtain rfl : name' = name := isName
    have missing : name' ∉ front.names := by
      intro bound
      rw [List.nodup_append] at distinct
      exact distinct.2.2 name' bound name' List.mem_cons_self rfl
    have distinctRest : (names (front ++ [(name', d)]) ++ names further).Nodup := by
      simpa using distinct
    have rest := ih sameRest distinctRest
    rw [setAll, List.foldl_cons, set_append_cons missing]
    simpa [setAll] using rest

/-- Bindings of the same names in the same order are replaced by the further ones. -/
theorem setAll_of_names {b further : Bindings} (same : b.names = further.names)
    (distinct : further.names.Nodup) : b.setAll further = further := by
  have start : (names [] ++ further.names).Nodup := distinct
  exact setAll_append same start

/-! ## Refreshing to a list of names -/

theorem foldl_set {f : String → Distribution} {names : List String} {new : Bindings}
    (distinct : (new.names ++ names).Nodup) :
    names.foldl (fun new name => set name (f name) new) new =
      new ++ names.map fun name => (name, f name) := by
  induction names generalizing new with
  | nil => simp
  | cons name names ih =>
    have missing : name ∉ new.names := by
      intro bound
      rw [List.nodup_append] at distinct
      exact distinct.2.2 name bound name List.mem_cons_self rfl
    have distinctRest : (Bindings.names (new ++ [(name, f name)]) ++ names).Nodup := by
      simpa using distinct
    rw [List.foldl_cons, set_of_notMem missing, ih distinctRest]
    simp

theorem refreshed_eq {names : List String} (distinct : names.Nodup) (b : Bindings) :
    b.refreshed names = names.map fun name => (name, b.kept name) := by
  have start : (Bindings.names [] ++ names).Nodup := distinct
  rw [refreshed, foldl_set start, List.nil_append]

theorem names_refreshed {names : List String} (distinct : names.Nodup) (b : Bindings) :
    (b.refreshed names).names = names := by
  rw [refreshed_eq distinct, Bindings.names, List.map_map]
  exact List.map_id _

theorem find?_refreshed {names : List String} (distinct : names.Nodup) (b : Bindings)
    (listed : name ∈ names) : (b.refreshed names).find? name = some (b.kept name) := by
  rw [refreshed_eq distinct]
  clear distinct
  induction names with
  | nil => cases listed
  | cons first names ih =>
    rw [List.map_cons, find?_cons]
    by_cases same : name = first
    · rw [if_pos same, same]
    · rw [if_neg same]
      exact ih (List.mem_of_ne_of_mem same listed)

theorem kept_of_notMem (missing : name ∉ b.names) : b.kept name = .initial := by
  rw [kept, find?_eq_none_iff.mpr missing]
  rfl

theorem kept_of_find? (found : b.find? name = some d) : b.kept name = d := by
  rw [kept, found]
  rfl

/-! ### The same names again -/

theorem find?_of_mem (distinct : b.names.Nodup) (member : (name, d) ∈ b) :
    b.find? name = some d := by
  induction b with
  | nil => cases member
  | cons entry b ih =>
    obtain ⟨first, d'⟩ := entry
    obtain ⟨fresh, distinctRest⟩ := List.nodup_cons.mp distinct
    rw [find?_cons]
    rcases List.mem_cons.mp member with here | later
    · cases here
      rw [if_pos rfl]
    · have differs : name ≠ first := by
        rintro rfl
        exact fresh (List.mem_map.mpr ⟨(name, d), later, rfl⟩)
      rw [if_neg differs, ih distinctRest later]

theorem refreshed_self (distinct : b.names.Nodup) : b.refreshed b.names = b := by
  rw [refreshed_eq distinct]
  have kept_self : ∀ entry ∈ b, (entry.1, b.kept entry.1) = entry := fun entry member =>
    congrArg (Prod.mk entry.1) (kept_of_find? (find?_of_mem distinct member))
  calc (b.names.map fun name => (name, b.kept name))
      = b.map fun entry => (entry.1, b.kept entry.1) := List.map_map
    _ = b := by rw [List.map_congr_left kept_self, List.map_id']

theorem ext_find? {b c : Bindings} (same : b.names = c.names) (distinct : b.names.Nodup)
    (agree : ∀ name, b.find? name = c.find? name) : b = c := by
  have distinctOther : c.names.Nodup := by rwa [← same]
  have kept : b.kept = c.kept := by
    funext name
    rw [kept, kept, agree]
  calc b = b.refreshed b.names := (refreshed_self distinct).symm
    _ = c.refreshed c.names := by rw [refreshed_eq distinct, refreshed_eq distinctOther, same, kept]
    _ = c := refreshed_self distinctOther

/-! ### Setting in another order -/

theorem mem_of_find? (found : b.find? name = some d) : (name, d) ∈ b := by
  induction b with
  | nil => cases found
  | cons entry b ih =>
    obtain ⟨first, d'⟩ := entry
    rw [find?_cons] at found
    split at found
    · next same =>
      cases found
      rw [same]
      exact List.mem_cons_self
    · exact List.mem_cons_of_mem _ (ih found)

theorem find?_perm {further other : Bindings} (distinct : further.names.Nodup)
    (perm : further.Perm other) (name : String) : further.find? name = other.find? name := by
  have names : further.names.Perm other.names := perm.map Prod.fst
  cases found : further.find? name with
  | some d =>
    have member := perm.mem_iff.mp (mem_of_find? found)
    exact (find?_of_mem (names.nodup_iff.mp distinct) member).symm
  | none =>
    have missing := find?_eq_none_iff.mp found
    rw [names.mem_iff] at missing
    exact (find?_eq_none_iff.mpr missing).symm

theorem setAll_cons (b : Bindings) (name : String) (d : Distribution) (further : Bindings) :
    b.setAll ((name, d) :: further) = (set name d b).setAll further := rfl

theorem names_setAll {b further : Bindings} (bound : ∀ name ∈ further.names, name ∈ b.names) :
    (b.setAll further).names = b.names := by
  induction further generalizing b with
  | nil => rfl
  | cons entry further ih =>
    obtain ⟨name, d⟩ := entry
    obtain ⟨boundFirst, boundRest⟩ := List.forall_mem_cons.mp bound
    have same : (set name d b).names = b.names := names_set_of_mem boundFirst
    rw [setAll_cons, ih (by rwa [same]), same]

theorem find?_setAll {b further : Bindings} (distinct : further.names.Nodup) (name : String) :
    (b.setAll further).find? name = (further.find? name).or (b.find? name) := by
  induction further generalizing b with
  | nil => rfl
  | cons entry further ih =>
    obtain ⟨first, d⟩ := entry
    obtain ⟨fresh, distinctRest⟩ := List.nodup_cons.mp distinct
    rw [setAll_cons, ih distinctRest, find?_set, find?_cons]
    split
    · next same =>
      rw [same, find?_eq_none_iff.mpr fresh]
      rfl
    · rfl

theorem setAll_perm {b further other : Bindings} (distinct : b.names.Nodup)
    (bound : ∀ name ∈ further.names, name ∈ b.names) (once : further.names.Nodup)
    (perm : further.Perm other) : b.setAll further = b.setAll other := by
  have names : further.names.Perm other.names := perm.map Prod.fst
  have boundOther : ∀ name ∈ other.names, name ∈ b.names := fun name member =>
    bound name (names.mem_iff.mpr member)
  have kept := names_setAll bound
  apply ext_find?
  · rw [kept, names_setAll boundOther]
  · rwa [kept]
  · intro name
    rw [find?_setAll once, find?_setAll (names.nodup_iff.mp once), find?_perm once perm]

theorem set_comm {b : Bindings} {name other : String} (distinct : b.names.Nodup)
    (bound : name ∈ b.names) (boundOther : other ∈ b.names) (differ : other ≠ name)
    (d e : Distribution) : set other e (set name d b) = set name d (set other e b) := by
  have each : ∀ set ∈ names [(name, d), (other, e)], set ∈ b.names := by
    simp [bound, boundOther]
  have once : (names [(name, d), (other, e)]).Nodup := by
    simpa using differ.symm
  exact setAll_perm distinct each once (.swap _ _ _)

theorem added_self (b : Bindings) : b.added b.names = [] := by
  simp [added]

theorem removed_self (b : Bindings) : b.removed b.names = [] := by
  simp [removed]

end Bindings

/-! ## The variables of an expression -/

theorem nodup_eraseDups (xs : List String) : xs.eraseDups.Nodup :=
  match xs with
  | [] => by simp
  | x :: xs => by
    rw [List.eraseDups_cons]
    refine List.nodup_cons.mpr ⟨?_, nodup_eraseDups _⟩
    simp [List.mem_eraseDups]
termination_by xs.length
decreasing_by
  exact Nat.lt_succ_of_le (List.length_filter_le _ _)

theorem Expr.nodup_variableNames (e : Expr) : e.variableNames.Nodup :=
  nodup_eraseDups _

end Reckon
