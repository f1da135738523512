import Reckon.Failure

/-!
Outcomes: a result or the failure that prevented it, together with the events noted on the way.

Events stay when a step after them fails.
-/

set_option autoImplicit false

namespace Reckon

inductive Event where
  | variablesChanged (added removed : List String)
  | discarded (count trials : Nat)
  | nonPositivePercentile (described : String)
  deriving DecidableEq, Repr

namespace Event

def nameList (names : List String) : String :=
  "[" ++ Text.join ", " (names.map Text.quoted) ++ "]"

def level : Event → String
  | variablesChanged .. | discarded .. => "INFO"
  | nonPositivePercentile _ => "WARNING"

def message : Event → String
  | variablesChanged added removed =>
    "Formula variables changed. Added: " ++ nameList added ++ ", removed: " ++ nameList removed
  | discarded count trials =>
    "Discarded " ++ Decimal.whole count ++ " of " ++ Decimal.whole trials
      ++ " Monte Carlo trials with undefined result"
  | nonPositivePercentile described =>
    "Lognormal distribution requires positive percentiles, got " ++ described

end Event

/-- The events of some work, and its result or why there is none. -/
structure Outcome (α : Type) where
  events : List Event
  result : Except Failure α

namespace Outcome

variable {α β : Type}

def fail (failure : Failure) : Outcome α :=
  ⟨[], .error failure⟩

def note (event : Event) : Outcome Unit :=
  ⟨[event], .ok ()⟩

def ofExcept (result : Except Failure α) : Outcome α :=
  ⟨[], result⟩

def andThen (first : Outcome α) (next : α → Outcome β) : Outcome β :=
  match first.result with
  | .ok value => ⟨first.events ++ (next value).events, (next value).result⟩
  | .error failure => ⟨first.events, .error failure⟩

instance : Monad Outcome where
  pure value := ⟨[], .ok value⟩
  bind := andThen

instance : MonadExceptOf Failure Outcome where
  throw := fail
  tryCatch first handler :=
    match first.result with
    | .ok _ => first
    | .error failure => ⟨first.events ++ (handler failure).events, (handler failure).result⟩

instance : MonadLift (Except Failure) Outcome where
  monadLift := ofExcept

end Outcome

end Reckon
