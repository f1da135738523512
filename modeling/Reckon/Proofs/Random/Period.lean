import Mathlib.Data.BitVec
import Mathlib.Tactic.Ring
import Reckon.Proofs.Double.Equality
import Reckon.Proofs.Random.Stream

/-!
Generators leave out no state.

A congruence modulo a power of two goes through all states if its multiplier leaves one modulo four
and its increment is odd. So whatever a generator has drawn so far, it comes to a draw that is not
zero, and to one that is.
-/

set_option autoImplicit false

namespace Reckon.Random

/-! ## Congruences -/

section

variable {R : Type} [CommRing R] {f : R → R} {b d : R}

/-- In 2^k steps a state changes by 2^k, up to multiples of 2^(k+1). -/
theorem exists_iterate_two_pow (form : ∀ x, f x = (1 + 4 * b) * x + (1 + 2 * d)) (k : Nat) :
    ∃ b' d', ∀ x, f^[2 ^ k] x = x + 2 ^ k * (1 + 2 * d') + 2 ^ (k + 2) * b' * x := by
  induction k with
  | zero =>
    refine ⟨b, d, fun x => ?_⟩
    rw [pow_zero, Function.iterate_one, form]
    ring
  | succ k ih =>
    obtain ⟨b', d', steps⟩ := ih
    refine ⟨b' + 2 ^ (k + 1) * b' ^ 2, d' + 2 ^ k * b' * (1 + 2 * d'), fun x => ?_⟩
    rw [pow_succ 2 k, Nat.mul_two, Function.iterate_add_apply, steps, steps]
    ring

theorem exists_iterate_eq (form : ∀ x, f x = (1 + 4 * b) * x + (1 + 2 * d))
    (parity : ∀ z : R, ∃ half, z = 2 * half ∨ z = 1 + 2 * half) {bits : Nat}
    (modulus : (2 : R) ^ bits = 0) (x y : R) : ∃ count, f^[count] x = y := by
  -- one bit after the other is made to agree, the lowest one first
  have agree (k : Nat) : ∃ count rest, y = f^[count] x + 2 ^ k * rest := by
    induction k with
    | zero => exact ⟨0, y - x, by rw [Function.iterate_zero, id]; ring⟩
    | succ k ih =>
      obtain ⟨count, rest, same⟩ := ih
      obtain ⟨half, rfl | rfl⟩ := parity rest
      · exact ⟨count, half, by rw [same]; ring⟩
      · obtain ⟨b', d', steps⟩ := exists_iterate_two_pow form k
        refine ⟨2 ^ k + count, half - d' - 2 * b' * f^[count] x, ?_⟩
        rw [same, Function.iterate_add_apply, steps]
        ring
  obtain ⟨count, rest, same⟩ := agree bits
  exact ⟨count, by rw [same, modulus]; ring⟩

end

section

variable {width : Nat}

theorem exists_half (z : BitVec width) :
    ∃ half : BitVec width, z = 2 * half ∨ z = 1 + 2 * half := by
  have parts := congrArg (Nat.cast : Nat → BitVec width) (Nat.mod_add_div z.toNat 2)
  have whole : (z.toNat : BitVec width) = z := by
    rw [BitVec.natCast_eq_ofNat, BitVec.ofNat_toNat, BitVec.setWidth_eq]
  rw [whole, Nat.cast_add, Nat.cast_mul] at parts
  refine ⟨(z.toNat / 2 : Nat), ?_⟩
  rcases Nat.mod_two_eq_zero_or_one z.toNat with even | odd
  · rw [even, Nat.cast_zero, zero_add] at parts
    exact .inl parts.symm
  · rw [odd, Nat.cast_one] at parts
    exact .inr parts.symm

theorem two_pow_width : (2 : BitVec width) ^ width = 0 := by
  have whole : ((2 ^ width : Nat) : BitVec width) = 0 := by
    refine BitVec.eq_of_toNat_eq ?_
    rw [BitVec.natCast_eq_ofNat, BitVec.toNat_ofNat, Nat.mod_self]
    rfl
  rw [Nat.cast_pow] at whole
  exact whole

end

namespace Permuted

variable (g : Permuted)

@[simp] theorem step_increment : g.step.increment = g.increment := by
  rw [increment, increment, step]

theorem step_state : g.step.state = g.state * multiplier + g.increment := by
  rw [step]

theorem state_iterate (count : Nat) :
    (step^[count] g).state = (fun x => x * multiplier + g.increment)^[count] g.state := by
  induction count generalizing g with
  | zero => rfl
  | succ count ih =>
    rw [Function.iterate_succ_apply, Function.iterate_succ_apply, ih, step_increment, step_state]

theorem exists_state (state : BitVec 128) : ∃ count, (step^[count + 1] g).state = state := by
  have isMultiplier : multiplier = 1 + 4 * 0x8d83b4147f1976910e177d927f33d91 := by decide +kernel
  have form (x : BitVec 128) : x * multiplier + g.step.increment =
      (1 + 4 * 0x8d83b4147f1976910e177d927f33d91) * x + (1 + 2 * g.step.stream) := by
    rw [isMultiplier, increment]
    ring
  obtain ⟨count, reached⟩ := exists_iterate_eq form exists_half two_pow_width g.step.state state
  exact ⟨count, by rw [Function.iterate_succ_apply, state_iterate, reached]⟩

end Permuted

/-! ## Draws -/

namespace Source

open Double

def Generated (s : Source) : Prop := ∃ g, s = permuted g

variable {s t : Source}

theorem Generated.next (generated : s.Generated) : ∃ u t, s.next? = some (u, t) ∧ t.Generated := by
  obtain ⟨g, rfl⟩ := generated
  exact ⟨_, _, rfl, g.step, rfl⟩

theorem Generated.after {draws : List Float} (generated : s.Generated) (yields : s.Yields draws t) :
    t.Generated := by
  induction yields with
  | nil => exact generated
  | cons next _ ih =>
    obtain ⟨u, t, isNext, further⟩ := generated.next
    rw [next] at isNext
    cases isNext
    exact ih further

theorem yields_iterate (g : Permuted) (count : Nat) :
    ∃ draws, (permuted g).Yields
      (draws ++ [unitFloat (Permuted.output (Permuted.step^[count + 1] g).state)])
      (permuted (Permuted.step^[count + 1] g)) := by
  induction count generalizing g with
  | zero =>
    rw [Nat.zero_add, Function.iterate_one]
    exact ⟨[], .single rfl⟩
  | succ count ih =>
    obtain ⟨draws, yields⟩ := ih g.step
    rw [← Function.iterate_succ_apply] at yields
    exact ⟨_ :: draws, .cons rfl yields⟩

theorem Generated.exists_draw (generated : s.Generated) (state : BitVec 128) :
    ∃ draws t, s.Yields (draws ++ [unitFloat (Permuted.output state)]) t := by
  obtain ⟨g, rfl⟩ := generated
  obtain ⟨count, reached⟩ := g.exists_state state
  obtain ⟨draws, yields⟩ := yields_iterate g count
  rw [reached] at yields
  exact ⟨draws, _, yields⟩

theorem Generated.exists_zero (generated : s.Generated) :
    ∃ draws t, s.Yields (draws ++ [0]) t := by
  have zero : unitFloat (Permuted.output 0) = 0 := by
    refine eq_of_toBits ?_
    decide +kernel
  rw [← zero]
  exact generated.exists_draw 0

theorem Generated.nonzero (generated : s.Generated) :
    ∃ u t, s.nonzero? = some (u, t) ∧ t.Generated := by
  have half : (unitFloat (Permuted.output 0x8000000000000000) == 0) = false := by decide +kernel
  obtain ⟨draws, last, yields⟩ := generated.exists_draw 0x8000000000000000
  obtain ⟨u, others, found⟩ : ∃ u others, nonzeros
      (draws ++ [unitFloat (Permuted.output 0x8000000000000000)]) = u :: others := by
    refine List.exists_cons_of_ne_nil fun none => ?_
    have isZero := nonzeros_eq_nil_iff.mp none _ (List.mem_append_right draws List.mem_cons_self)
    rw [half] at isZero
    cases isZero
  obtain ⟨taken, _, t, _, _, _, _, first, _, isNonzero⟩ := exists_nonzero? yields found
  exact ⟨u, t, isNonzero, generated.after first⟩

end Source

end Reckon.Random
