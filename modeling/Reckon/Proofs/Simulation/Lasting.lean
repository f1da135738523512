import Reckon.Proofs.Distribution.Poisson
import Reckon.Proofs.Double.Product
import Reckon.Proofs.Random.Period
import Reckon.Proofs.Simulation.Successive
import Reckon.Random.Seed

/-!
Generators last for any number of trials.

Only the loop of a Poisson distribution might take draws without end. A draw of zero ends it, unless
its limit is negative.
-/

set_option autoImplicit false

namespace Reckon

open Reckon.Random Reckon.Double

theorem Random.Source.generated_ofSeed {seed : Value} {s : Source}
    (started : Source.ofSeed seed = .ok s) : s.Generated := by
  rw [ofSeed] at started
  cases entropy : Seed.entropy seed with
  | error failure =>
    rw [entropy] at started
    cases started
  | ok words =>
    rw [entropy] at started
    cases started
    exact ⟨_, rfl⟩

namespace Distribution

/-- The loop has a negative limit, which products of draws may never meet. -/
def Endless : Distribution → Prop
  | poisson rate => Float.exp (-rate.toFloat) < 0
  | _ => False

variable {s : Source}

theorem not_lt_mul_zero {limit : Float} (nonneg : ¬limit < 0) (x : Float) : ¬limit < x * 0 := by
  intro exceeds
  rcases mul_zero_cases x with nan | nonpos
  · rw [(numbers_of_lt exceeds).2] at nan
    cases nan
  · exact nonneg (lt_of_lt_of_le exceeds nonpos)

theorem exists_poissonCount?_of_generated (generated : s.Generated) {exp : Float → Float}
    {rate : Float} (nonneg : ¬exp (-rate) < 0) :
    ∃ count t, poissonCount? exp rate s = some (count, t) ∧ t.Generated := by
  obtain ⟨draws, last, yields⟩ := generated.exists_zero
  have met : ¬exp (-rate) < product ((draws ++ [0]).take (draws.length + 1)) := by
    rw [List.take_of_length_le (by simp), product, List.foldl_append]
    exact not_lt_mul_zero nonneg _
  obtain ⟨count, t, counted, _⟩ := exists_poissonCount? yields (by simp) met
  obtain ⟨taken, first, _⟩ := poissonCount?_eq_some_iff.mp counted
  exact ⟨count, t, counted, generated.after first⟩

theorem exists_standardNormal? (generated : s.Generated) :
    ∃ z t, standardNormal? s = some (z, t) ∧ t.Generated := by
  obtain ⟨u₁, t₁, first, generated₁⟩ := generated.nonzero
  obtain ⟨u₂, t₂, second, generated₂⟩ := generated₁.nonzero
  refine ⟨normalOf u₁ u₂, t₂, ?_, generated₂⟩
  simp [standardNormal?, first, second]

theorem exists_sample? (generated : s.Generated) {d : Distribution} (ends : ¬d.Endless) :
    ∃ x t, d.sample? s = some (x, t) ∧ t.Generated := by
  cases d with
  | uniform min max =>
    obtain ⟨u, t, next, further⟩ := generated.next
    exact ⟨_, t, by simp [sample?, next]; rfl, further⟩
  | gaussian mean stddev =>
    obtain ⟨z, t, normal, further⟩ := exists_standardNormal? generated
    exact ⟨_, t, by simp [sample?, normal]; rfl, further⟩
  | lognormal low high =>
    obtain ⟨z, t, normal, further⟩ := exists_standardNormal? generated
    exact ⟨_, t, by simp [sample?, normal]; rfl, further⟩
  | poisson rate =>
    obtain ⟨count, t, counted, further⟩ := exists_poissonCount?_of_generated generated ends
    exact ⟨_, t, by simp [sample?, counted]; rfl, further⟩

end Distribution

namespace Simulation

variable {bindings : List (String × Distribution)} {s : Source}
  (ends : ∀ binding ∈ bindings, ¬binding.2.Endless)

include ends

theorem exists_drawValues? (generated : s.Generated) :
    ∃ values t, drawValues? bindings s = some (values, t) ∧ t.Generated := by
  induction bindings generalizing s with
  | nil => exact ⟨[], s, rfl, generated⟩
  | cons binding bindings ih =>
    obtain ⟨endsFirst, endsRest⟩ := List.forall_mem_cons.mp ends
    obtain ⟨x, middle, first, generatedMiddle⟩ := Distribution.exists_sample? generated endsFirst
    obtain ⟨values, t, others, further⟩ := ih endsRest generatedMiddle
    exact ⟨_, t, by simp [drawValues?, first, others]; rfl, further⟩

theorem lasts_of_generated (generated : s.Generated) (count : Nat) : Lasts bindings count s := by
  induction count generalizing s with
  | zero => rfl
  | succ count ih =>
    obtain ⟨values, middle, first, further⟩ := exists_drawValues? ends generated
    exact lasts_succ_iff.mpr ⟨values, middle, first, ih further⟩

end Simulation

end Reckon
