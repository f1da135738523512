import Reckon.Proofs.Model.Bindings

/-!
Refreshing bindings to another list of names.

What a name is bound to afterwards depends on its old binding alone. So a refresh on the way to
another one is lost without a trace, unless it drops a name that comes back.
-/

set_option autoImplicit false

namespace Reckon.Bindings

variable {b : Bindings} {listed later : List String} {name : String}

theorem mem_added : name ∈ b.added listed ↔ name ∈ listed ∧ name ∉ b.names := by
  simp [added]

theorem mem_removed : name ∈ b.removed listed ↔ name ∈ b.names ∧ name ∉ listed := by
  simp [removed]

theorem added_sublist (b : Bindings) (listed : List String) : (b.added listed).Sublist listed :=
  List.filter_sublist

theorem removed_sublist (b : Bindings) (listed : List String) :
    (b.removed listed).Sublist b.names :=
  List.filter_sublist

theorem unaltered_iff :
    b.added listed = [] ∧ b.removed listed = [] ↔ ∀ name, name ∈ b.names ↔ name ∈ listed := by
  simp only [List.eq_nil_iff_forall_not_mem, mem_added, mem_removed, not_and, not_not]
  constructor
  · rintro ⟨noneNew, noneOld⟩ name
    exact ⟨noneOld name, noneNew name⟩
  · intro same
    exact ⟨fun name => (same name).mpr, fun name => (same name).mp⟩

theorem find?_refreshed_of_notMem (distinct : listed.Nodup) (b : Bindings)
    (unlisted : name ∉ listed) : (b.refreshed listed).find? name = none := by
  rw [find?_eq_none_iff, names_refreshed distinct]
  exact unlisted

theorem kept_refreshed (distinct : listed.Nodup) (b : Bindings) (name : String) :
    (b.refreshed listed).kept name = if name ∈ listed then b.kept name else .initial := by
  split
  · next member => rw [kept_of_find? (find?_refreshed distinct b member)]
  · next unlisted =>
    rw [kept, find?_refreshed_of_notMem distinct b unlisted]
    rfl

/-- A refresh before another one matters only to names that it drops and the other one lists. -/
theorem refreshed_refreshed_iff (distinct : listed.Nodup) (distinctLater : later.Nodup)
    (b : Bindings) : (b.refreshed listed).refreshed later = b.refreshed later ↔
      ∀ name ∈ later, name ∉ listed → b.kept name = .initial := by
  rw [refreshed_eq distinctLater, refreshed_eq distinctLater, List.map_inj_left]
  refine forall₂_congr fun name _ => ?_
  rw [Prod.mk.injEq, eq_self_iff_true, true_and, kept_refreshed distinct]
  split
  · next member => exact ⟨fun _ unlisted => absurd member unlisted, fun _ => rfl⟩
  · next unlisted => exact ⟨fun same _ => same.symm, fun usual => (usual unlisted).symm⟩

theorem refreshed_refreshed (distinct : listed.Nodup) (distinctLater : later.Nodup)
    (returning : ∀ name ∈ b.names, name ∈ later → name ∈ listed) :
    (b.refreshed listed).refreshed later = b.refreshed later := by
  refine (refreshed_refreshed_iff distinct distinctLater b).mpr fun name member unlisted => ?_
  -- a name that is dropped on the way was not bound at the start either
  have unbound : name ∉ b.names := fun bound => unlisted (returning name bound member)
  exact kept_of_notMem unbound

/-- A refresh binds exactly the listed names, in their order: one that was bound keeps its
distribution, and any other one has the usual one. It tells the names that are new and those that
are gone, and it can be left out before another refresh to which no old name comes back. -/
theorem refreshed_spec (b : Bindings) {listed : List String} (distinct : listed.Nodup) :
    (b.refreshed listed).names = listed ∧
    (∀ name ∈ listed,
      (∀ d, b.find? name = some d → (b.refreshed listed).find? name = some d) ∧
      (name ∉ b.names → (b.refreshed listed).find? name = some (.uniform 0 100))) ∧
    ((b.added listed).Sublist listed ∧
      ∀ name, name ∈ b.added listed ↔ name ∈ listed ∧ name ∉ b.names) ∧
    ((b.removed listed).Sublist b.names ∧
      ∀ name, name ∈ b.removed listed ↔ name ∈ b.names ∧ name ∉ listed) ∧
    (b.added listed = [] ∧ b.removed listed = [] ↔ ∀ name, name ∈ b.names ↔ name ∈ listed) ∧
    (∀ later : List String, later.Nodup →
      (∀ name ∈ b.names, name ∈ later → name ∈ listed) →
      (b.refreshed listed).refreshed later = b.refreshed later) ∧
    (b.refreshed listed).refreshed listed = b.refreshed listed := by
  refine ⟨names_refreshed distinct b, fun name member => ⟨fun d found => ?_, fun missing => ?_⟩,
    ⟨added_sublist b listed, fun _ => mem_added⟩, ⟨removed_sublist b listed, fun _ => mem_removed⟩,
    unaltered_iff, fun later => refreshed_refreshed distinct,
    refreshed_refreshed distinct distinct fun _ _ member => member⟩
  · rw [find?_refreshed distinct b member, kept_of_find? found]
  · rw [find?_refreshed distinct b member, kept_of_notMem missing]
    rfl

def assorted : Bindings :=
  [("a", .gaussian 1 2), ("b", .poisson 3), ("c", .uniform 5 6)]

theorem refreshed_spec_assorted :
    ["c", "d", "a"].Nodup ∧ ["e", "a"].Nodup ∧
    (assorted.refreshed ["c", "d", "a"]).names = ["c", "d", "a"] ∧
    (assorted.refreshed ["c", "d", "a"]).find? "a" = some (.gaussian 1 2) ∧
    (assorted.refreshed ["c", "d", "a"]).find? "d" = some (.uniform 0 100) ∧
    "d" ∈ assorted.added ["c", "d", "a"] ∧ "b" ∈ assorted.removed ["c", "d", "a"] ∧
    (assorted.refreshed ["c", "d", "a"]).refreshed ["e", "a"] = assorted.refreshed ["e", "a"] := by
  have distinct : ["c", "d", "a"].Nodup := by decide
  obtain ⟨names, bound, ⟨_, new⟩, ⟨_, gone⟩, _, passes, _⟩ := refreshed_spec assorted distinct
  exact ⟨distinct, by decide, names, (bound "a" (by decide)).1 _ rfl,
    (bound "d" (by decide)).2 (by decide), (new "d").mpr (by decide), (gone "b").mpr (by decide),
    passes _ (by decide) (by decide)⟩

end Reckon.Bindings
