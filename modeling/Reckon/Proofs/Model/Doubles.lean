import Reckon.Proofs.Double.Equality
import Reckon.Proofs.Model.Operations
import Reckon.Model.Basic

/-!
Simulations of models whose parameters are doubles.

In a description every parameter is a double. A whole number in its place may be subtracted from
another one before it is rounded, but as a double holds it exactly the numbers that are drawn are the
same.
-/

set_option autoImplicit false

namespace Reckon

open Reckon.Random

theorem Parameter.minus_toFloat (a b : Parameter) : a.toFloat - b.toFloat = a.minus b := by
  cases a with
  | real x => cases b <;> rfl
  | whole m exactM =>
    cases b with
    | real y => rfl
    | whole n exactN => exact Double.ofInt_sub exactM exactN

namespace Distribution

theorem sample?_inDoubles (s : Source) (d : Distribution) : d.inDoubles.sample? s = d.sample? s := by
  cases d with
  | uniform min max =>
    have same : Parameter.minus max.toFloat min.toFloat = max.minus min := max.minus_toFloat min
    change (uniform min.toFloat max.toFloat).sample? s = _
    rw [sample?, same]
    rfl
  | _ => rfl

end Distribution

namespace Simulation

theorem drawValues?_inDoubles (b : Bindings) (s : Source) :
    drawValues? b.inDoubles s = drawValues? b s := by
  induction b generalizing s with
  | nil => rfl
  | cons entry b ih =>
    obtain ⟨name, d⟩ := entry
    change drawValues? ((name, d.inDoubles) :: Bindings.inDoubles b) s = _
    simp only [drawValues?, d.sample?_inDoubles, ih]

theorem runTrials_inDoubles [Machine] (e : Expr) (b : Bindings) (count valid : Nat)
    (buffer : Buffer) (s : Source) :
    runTrials e b.inDoubles count valid buffer s = runTrials e b count valid buffer s := by
  induction count generalizing valid buffer s with
  | zero => rfl
  | succ count ih => simp only [runTrials, drawValues?_inDoubles, ih]

theorem simulateOver_inDoubles [Machine] (stale : Nat → Float) (e : Expr) (b : Bindings)
    (trials : Value) (s : Source) :
    simulateOver stale e b.inDoubles trials s = simulateOver stale e b trials s := by
  simp only [simulateOver, runOver, runTrials_inDoubles]

end Simulation

namespace Bindings

theorem inDoubles_set (b : Bindings) (name : String) (d : Distribution) :
    (b.set name d).inDoubles = b.inDoubles.set name d.inDoubles := by
  induction b with
  | nil => rfl
  | cons entry b ih =>
    obtain ⟨other, e⟩ := entry
    change (set name d ((other, e) :: b)).inDoubles =
      set name d.inDoubles ((other, e.inDoubles) :: Bindings.inDoubles b)
    rw [set, set]
    split
    · rfl
    · rw [← ih]
      rfl

theorem inDoubles_setAll (b further : Bindings) :
    (b.setAll further).inDoubles = b.inDoubles.setAll further.inDoubles := by
  induction further generalizing b with
  | nil => rfl
  | cons entry further ih =>
    obtain ⟨name, d⟩ := entry
    rw [setAll_cons, ih, inDoubles_set]
    rfl

end Bindings

namespace Model

/-- The model with the double that each parameter stands for. -/
def inDoubles (m : Model) : Model :=
  { m with bindings := m.bindings.inDoubles }

@[simp] theorem inDoubles_inDoubles (m : Model) : m.inDoubles.inDoubles = m.inDoubles := by
  simp [inDoubles]

theorem simulate_inDoubles [Machine] (m : Model) (trials : Value) (s : Source) :
    m.inDoubles.simulate trials s = m.simulate trials s :=
  Simulation.simulateOver_inDoubles _ m.expr m.bindings trials s

end Model

end Reckon
