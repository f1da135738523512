import Reckon.Outcome

/-!
Changes of a state that may fail on the way.

What was changed before a failure stays changed.
-/

set_option autoImplicit false

namespace Reckon

/-- A change of a state: its outcome and the state after it, even if it fails. -/
def Change (σ α : Type) : Type := σ → Outcome α × σ

namespace Change

variable {σ τ α β : Type}

def ofOutcome (outcome : Outcome α) : Change σ α := fun s => (outcome, s)

def andThen (first : Change σ α) (next : α → Change σ β) : Change σ β := fun s =>
  match first s with
  | (⟨events, .ok value⟩, s) =>
    let (outcome, s) := next value s
    (⟨events ++ outcome.events, outcome.result⟩, s)
  | (⟨events, .error failure⟩, s) => (⟨events, .error failure⟩, s)

instance : Monad (Change σ) where
  pure value := ofOutcome (pure value)
  bind := andThen

instance : MonadLift Outcome (Change σ) where
  monadLift := ofOutcome

instance : MonadLift (Except Failure) (Change σ) where
  monadLift result := ofOutcome (.ofExcept result)

instance : MonadExceptOf Failure (Change σ) where
  throw failure := ofOutcome (.fail failure)
  tryCatch first handler := fun s =>
    match first s with
    | (⟨events, .error failure⟩, s) =>
      let (outcome, s) := handler failure s
      (⟨events ++ outcome.events, outcome.result⟩, s)
    | done => done

def current : Change σ σ := fun s => (pure s, s)

def update (f : σ → σ) : Change σ Unit := fun s => (pure (), f s)

def within (part : τ → σ) (put : σ → τ → τ) (change : Change σ α) : Change τ α := fun t =>
  let (outcome, s) := change (part t)
  (outcome, put s t)

def from? (s : σ) (change : Change σ Unit) : Outcome σ :=
  let (outcome, s) := change s
  ⟨outcome.events, outcome.result.map fun _ => s⟩

end Change

end Reckon
