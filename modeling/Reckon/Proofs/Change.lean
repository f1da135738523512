import Reckon.Change

/-!
Outcomes and changes one after the other.
-/

set_option autoImplicit false

namespace Reckon.Outcome

variable {α β : Type}

theorem result_bind (first : Outcome α) (next : α → Outcome β) :
    (first >>= next).result = first.result.bind fun value => (next value).result := by
  obtain ⟨events, result⟩ := first
  cases result <;> rfl

theorem result_lift (result : Except Failure α) : (liftM result : Outcome α).result = result := rfl

end Reckon.Outcome

namespace Reckon.Change

variable {σ τ α β : Type}

theorem lift_apply (outcome : Outcome α) (s : σ) : (liftM outcome : Change σ α) s = (outcome, s) :=
  rfl

theorem update_apply (f : σ → σ) (s : σ) : update f s = (⟨[], .ok ()⟩, f s) := rfl

theorem current_bind (next : σ → Change σ β) (s : σ) : (current >>= next) s = next s s := rfl

theorem bind_of_ok {first : Change σ α} {s t : σ} {events : List Event} {value : α}
    (done : first s = (⟨events, .ok value⟩, t)) (next : α → Change σ β) :
    (first >>= next) s =
      (⟨events ++ (next value t).1.events, (next value t).1.result⟩, (next value t).2) := by
  simp only [bind, andThen, done]

theorem lift_map_bind {γ : Type} (outcome : Outcome γ) (f : γ → α) (next : α → Change σ β) :
    ((liftM (outcome >>= fun value => pure (f value)) : Change σ α) >>= next) =
      (liftM outcome : Change σ γ) >>= fun value => next (f value) := by
  funext s
  rcases outcome with ⟨events, failure | value⟩
  · rfl
  · change ((liftM (⟨events ++ [], .ok (f value)⟩ : Outcome α) : Change σ α) >>= next) s = _
    rw [List.append_nil]
    rfl

theorem liftExcept_ok_bind (value : α) (next : α → Change σ β) (s : σ) :
    ((liftM (.ok value : Except Failure α) : Change σ α) >>= next) s = next value s := rfl

theorem bind_of_error {first : Change σ α} {s t : σ} {events : List Event} {failure : Failure}
    (failed : first s = (⟨events, .error failure⟩, t)) (next : α → Change σ β) :
    (first >>= next) s = (⟨events, .error failure⟩, t) := by
  simp only [bind, andThen, failed]

theorem fst_lift_bind (outcome : Outcome α) (next : α → Change σ β) (s : σ) :
    ((liftM outcome >>= next) s).1 = outcome >>= fun value => (next value s).1 := by
  obtain ⟨events, result⟩ := outcome
  cases result <;> rfl

theorem fst_liftExcept_bind (result : Except Failure α) (next : α → Change σ β) (s : σ) :
    ((liftM result >>= next) s).1 =
      (liftM result : Outcome α) >>= fun value => (next value s).1 := by
  cases result <;> rfl

/-! ## Changes that succeed -/

/-- The change succeeds with the value and leaves the second state, whatever is noted on the way. -/
def Leads (change : Change σ α) (s : σ) (value : α) (t : σ) : Prop :=
  ∃ events, change s = (⟨events, .ok value⟩, t)

theorem leads_pure (value : α) (s : σ) : (pure value : Change σ α).Leads s value s :=
  ⟨[], rfl⟩

theorem leads_current (s : σ) : current.Leads s s s :=
  ⟨[], rfl⟩

theorem leads_update (f : σ → σ) (s : σ) : (update f).Leads s () (f s) :=
  ⟨[], rfl⟩

theorem leads_lift {outcome : Outcome α} {value : α} (done : outcome.result = .ok value) (s : σ) :
    (liftM outcome : Change σ α).Leads s value s :=
  ⟨outcome.events, by rw [lift_apply, ← done]⟩

theorem leads_liftExcept {result : Except Failure α} {value : α} (done : result = .ok value)
    (s : σ) : (liftM result : Change σ α).Leads s value s :=
  ⟨[], by rw [done]; rfl⟩

namespace Leads

variable {s t u : σ} {value : α}

theorem bind {first : Change σ α} {next : α → Change σ β} {last : β}
    (leads : first.Leads s value t) (further : (next value).Leads t last u) :
    (first >>= next).Leads s last u := by
  obtain ⟨events, done⟩ := leads
  obtain ⟨more, doneFurther⟩ := further
  exact ⟨events ++ more, by rw [bind_of_ok done, doneFurther]⟩

theorem within {change : Change σ α} {part : τ → σ} (put : σ → τ → τ) {whole : τ}
    (leads : change.Leads (part whole) value t) :
    (Change.within part put change).Leads whole value (put t whole) := by
  obtain ⟨events, done⟩ := leads
  exact ⟨events, by rw [Change.within, done]⟩

theorem result_from? {change : Change σ Unit} (leads : change.Leads s () t) :
    (from? s change).result = .ok t := by
  obtain ⟨events, done⟩ := leads
  rw [from?, done]
  rfl

end Leads

/-! ## Changes that fail -/

/-- If the change fails in the state, then it leaves the state as it was. -/
def AtomicAt (change : Change σ α) (s : σ) : Prop :=
  ∀ failure, (change s).1.result = .error failure → (change s).2 = s

section

variable {s : σ}

theorem atomicAt_throw (failure : Failure) : (throw failure : Change σ α).AtomicAt s :=
  fun _ _ => rfl

theorem atomicAt_current_bind {next : σ → Change σ β} (further : (next s).AtomicAt s) :
    (current >>= next).AtomicAt s := by
  intro failure failed
  rw [current_bind] at failed ⊢
  exact further failure failed

theorem atomicAt_lift_bind {outcome : Outcome α} {next : α → Change σ β}
    (further : ∀ value, (next value).AtomicAt s) : (liftM outcome >>= next).AtomicAt s := by
  intro failure failed
  rcases outcome with ⟨events, failure' | value⟩
  · rfl
  · rw [bind_of_ok (lift_apply _ _)] at failed ⊢
    exact further value failure failed

theorem atomicAt_liftExcept_bind {result : Except Failure α} {next : α → Change σ β}
    (further : ∀ value, (next value).AtomicAt s) : (liftM result >>= next).AtomicAt s :=
  @atomicAt_lift_bind _ _ _ s (.ofExcept result) next further

end

/-- One change after the other stops at the first one that fails, after all those before it. -/
theorem forM_eq_error {items : List α} {change : α → Change σ PUnit} {s : σ} {failure : Failure}
    (failed : (items.forM change s).1.result = .error failure) :
    ∃ before item after t, items = before ++ item :: after ∧ (before.forM change).Leads s () t ∧
      (change item t).1.result = .error failure ∧ (items.forM change s).2 = (change item t).2 := by
  induction items generalizing s with
  | nil => cases failed
  | cons item items ih =>
    have unfolded : (item :: items).forM change s =
        (change item >>= fun _ => items.forM change) s := rfl
    rw [unfolded] at failed ⊢
    rcases ran : change item s with ⟨⟨events, failure' | value⟩, t⟩
    · rw [bind_of_error ran] at failed ⊢
      cases failed
      exact ⟨[], item, items, s, rfl, leads_pure () s, by rw [ran], by rw [ran]⟩
    · rw [bind_of_ok ran] at failed ⊢
      obtain ⟨before, stopping, after, u, rfl, leads, stopped, left⟩ := ih failed
      have first : (change item).Leads s value t := ⟨events, ran⟩
      exact ⟨item :: before, stopping, after, u, rfl, first.bind leads, stopped, left⟩

/-! ## Changes that keep a property -/

section

variable {keeps : σ → Prop} {s : σ}

theorem forM_keeps {items : List α} {change : α → Change σ PUnit}
    (each : ∀ item t, keeps t → keeps (change item t).2) (start : keeps s) :
    keeps (items.forM change s).2 := by
  induction items generalizing s with
  | nil => exact start
  | cons item items ih =>
    -- a change that fails ends the loop, but it may have changed the state before
    have first := each item s start
    change keeps ((change item >>= fun _ => items.forM change) s).2
    rcases ran : change item s with ⟨⟨events, failure | value⟩, t⟩
    · rw [ran] at first
      rw [bind_of_error ran]
      exact first
    · rw [ran] at first
      rw [bind_of_ok ran]
      exact ih first

theorem from?_keeps {change : Change σ Unit} {t : σ} (kept : keeps (change s).2)
    (done : (from? s change).result = .ok t) : keeps t := by
  rcases ran : change s with ⟨⟨events, failure | value⟩, u⟩
  · rw [from?, ran] at done
    cases done
  · rw [from?, ran] at done
    cases done
    rwa [ran] at kept

end

end Reckon.Change
