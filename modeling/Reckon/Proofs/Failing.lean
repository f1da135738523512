import Reckon.Proofs.Change

/-!
What work can fail for.

A sort of failures covers a piece of work if it covers each of its steps, where a later step only
has to be covered for the values and states that the earlier ones lead to.
-/

set_option autoImplicit false

namespace Reckon

variable {α β σ τ : Type} {sort sort' : Failure → Prop}

theorem bind_eq_ok {result : Except Failure α} {next : α → Except Failure β} {value : β} :
    (result >>= next) = .ok value ↔ ∃ first, result = .ok first ∧ next first = .ok value := by
  cases result with
  | error failure => simp [bind, Except.bind]
  | ok first => simp [bind, Except.bind]

theorem length_of_mapM {f : α → Except Failure β} {items : List α} {values : List β}
    (mapped : items.mapM f = .ok values) : values.length = items.length := by
  induction items generalizing values with
  | nil =>
    cases mapped
    rfl
  | cons item items ih =>
    rw [List.mapM_cons] at mapped
    obtain ⟨value, _, mapped⟩ := bind_eq_ok.mp mapped
    obtain ⟨others, areOthers, mapped⟩ := bind_eq_ok.mp mapped
    cases mapped
    rw [List.length_cons, List.length_cons, ih areOthers]

theorem exists_of_mem_mapM {f : α → Except Failure β} {items : List α} {values : List β}
    (mapped : items.mapM f = .ok values) {value : β} (member : value ∈ values) :
    ∃ item ∈ items, f item = .ok value := by
  induction items generalizing values with
  | nil =>
    cases mapped
    cases member
  | cons item items ih =>
    rw [List.mapM_cons] at mapped
    obtain ⟨first, isFirst, mapped⟩ := bind_eq_ok.mp mapped
    obtain ⟨others, areOthers, mapped⟩ := bind_eq_ok.mp mapped
    cases mapped
    rcases List.mem_cons.mp member with rfl | later
    · exact ⟨item, List.mem_cons_self, isFirst⟩
    · obtain ⟨item', inside, same⟩ := ih areOthers later
      exact ⟨item', List.mem_cons_of_mem item inside, same⟩

theorem exists_of_mapM {f : α → Except Failure β} {items : List α} {values : List β}
    (mapped : items.mapM f = .ok values) : ∀ item ∈ items, ∃ value, f item = .ok value := by
  induction items generalizing values with
  | nil => exact List.forall_mem_nil _
  | cons item items ih =>
    rw [List.mapM_cons] at mapped
    obtain ⟨value, isValue, mapped⟩ := bind_eq_ok.mp mapped
    obtain ⟨others, areOthers, _⟩ := bind_eq_ok.mp mapped
    exact List.forall_mem_cons.mpr ⟨⟨value, isValue⟩, ih areOthers⟩

/-- If there is no result, then for a failure of this sort. -/
def FailsFor (sort : Failure → Prop) (result : Except Failure α) : Prop :=
  ∀ failure, result = .error failure → sort failure

namespace FailsFor

theorem ok (value : α) : FailsFor sort (.ok value) := by
  intro _ failed
  cases failed

theorem error {failure : Failure} (covers : sort failure) :
    FailsFor sort (.error failure : Except Failure α) := by
  intro _ failed
  cases failed
  exact covers

theorem mono {result : Except Failure α} (covers : ∀ failure, sort failure → sort' failure)
    (fails : FailsFor sort result) : FailsFor sort' result :=
  fun failure failed => covers failure (fails failure failed)

theorem bind {result : Except Failure α} {next : α → Except Failure β}
    (fails : FailsFor sort result)
    (further : ∀ value, result = .ok value → FailsFor sort (next value)) :
    FailsFor sort (result.bind next) := by
  cases result with
  | error failure => exact error (fails failure rfl)
  | ok value => exact further value rfl

end FailsFor

namespace Outcome

theorem failsFor_bind {first : Outcome α} {next : α → Outcome β}
    (fails : FailsFor sort first.result)
    (further : ∀ value, first.result = .ok value → FailsFor sort (next value).result) :
    FailsFor sort (first >>= next).result := by
  rw [result_bind]
  exact fails.bind further

theorem failsFor_lift_bind {result : Except Failure α} {next : α → Outcome β}
    (fails : FailsFor sort result)
    (further : ∀ value, result = .ok value → FailsFor sort (next value).result) :
    FailsFor sort ((liftM result : Outcome α) >>= next).result :=
  failsFor_bind fails further

end Outcome

namespace Change

variable {s : σ}

theorem failsFor_bind {first : Change σ α} {next : α → Change σ β}
    (fails : FailsFor sort (first s).1.result)
    (further : ∀ value t, first.Leads s value t → FailsFor sort (next value t).1.result) :
    FailsFor sort ((first >>= next) s).1.result := by
  rcases ran : first s with ⟨⟨events, failure | value⟩, t⟩
  · -- what follows is not reached, whatever it would do
    rw [bind_of_error ran]
    exact .error (fails failure (by rw [ran]))
  · rw [bind_of_ok ran]
    exact further value t ⟨events, ran⟩

theorem failsFor_lift_bind {outcome : Outcome α} {next : α → Change σ β}
    (fails : FailsFor sort outcome.result)
    (further : ∀ value, outcome.result = .ok value → FailsFor sort (next value s).1.result) :
    FailsFor sort ((liftM outcome >>= next) s).1.result := by
  rw [fst_lift_bind]
  exact Outcome.failsFor_bind fails further

theorem failsFor_liftExcept_bind {result : Except Failure α} {next : α → Change σ β}
    (fails : FailsFor sort result)
    (further : ∀ value, result = .ok value → FailsFor sort (next value s).1.result) :
    FailsFor sort ((liftM result >>= next) s).1.result := by
  rw [fst_liftExcept_bind]
  exact Outcome.failsFor_bind fails further

theorem failsFor_update_bind {f : σ → σ} {next : Unit → Change σ β}
    (further : FailsFor sort (next () (f s)).1.result) :
    FailsFor sort ((update f >>= next) s).1.result := by
  rw [bind_of_ok (update_apply f s)]
  exact further

theorem failsFor_forM {items : List α} {change : α → Change σ PUnit}
    (each : ∀ item ∈ items, ∀ t, FailsFor sort (change item t).1.result) :
    FailsFor sort (items.forM change s).1.result := by
  -- later items find another state, so they are covered for any state
  induction items generalizing s with
  | nil => exact .ok _
  | cons item items ih =>
    obtain ⟨first, others⟩ := List.forall_mem_cons.mp each
    exact failsFor_bind (first s) fun _ t _ => ih others

theorem failsFor_from? {change : Change σ Unit} (fails : FailsFor sort (change s).1.result) :
    FailsFor sort (from? s change).result := by
  rcases ran : change s with ⟨⟨events, result⟩, t⟩
  rw [ran] at fails
  rw [from?, ran]
  cases result with
  | error failure => exact .error (fails failure rfl)
  | ok _ => exact .ok t

end Change

end Reckon
