import Mathlib.Data.Rat.Floor
import Mathlib.Tactic.FieldSimp
import Mathlib.Tactic.Linarith
import Reckon.Scalar.Spaced

/-!
Arithmetic on the rationals is exact.

The operations that summaries and histograms are computed with are the usual ones there, so evenly
spaced points lie where they should.
-/

set_option autoImplicit false

namespace Reckon.Scalar

theorem share_exact (count : Nat) (part : Rat) : share count part = ⌊(count : Rat) * part⌋ := rfl

theorem lt_exact (x y : Rat) : lt x y = true ↔ x < y := decide_eq_true_iff

theorem le_exact (x y : Rat) : le x y = true ↔ x ≤ y := decide_eq_true_iff

theorem isZero_exact (x : Rat) : isZero x = true ↔ x = 0 := by
  rw [isZero, Bool.and_eq_true, le_exact, le_exact]
  exact le_antisymm_iff.symm

theorem ceil_exact (x : Rat) : ceil x = ⌈x⌉ := by
  rw [Rat.ceil_def', ← Rat.num_neg_eq_neg_num, ← Rat.den_neg_eq_den, ← Rat.floor_def]
  exact Rat.ceil_eq_neg_floor_neg x

/-- Whether a number below zero is rounded towards zero or down makes no difference to a count. -/
theorem truncated_exact (x : Rat) :
    ∃ place : Int, truncated x = .ok place ∧ place.toNat = ⌊x⌋₊ := by
  refine ⟨x.num.tdiv x.den, rfl, ?_⟩
  rw [← Int.floor_toNat, Rat.floor_def']
  rcases lt_or_ge x.num 0 with negative | nonneg
  · have below : 0 ≤ (-x.num).tdiv x.den := Int.tdiv_nonneg (by omega) (Int.natCast_nonneg _)
    have quotient := Int.ediv_neg_of_neg_of_pos negative (Int.natCast_pos.mpr x.den_pos)
    rw [Int.neg_tdiv] at below
    omega
  · rw [Int.tdiv_eq_ediv_of_nonneg nonneg]

/-- A point of even steps, whether or not it is taken as a fraction of the whole way. -/
theorem stepPoint_exact (low high : Rat) (count i : Nat) :
    stepPoint low high count i = low + i * (high - low) / count := by
  have step : stepPoint low high count i =
      if isZero ((high - low) / (count : Rat)) then (i : Rat) / count * (high - low) + low
      else i * ((high - low) / count) + low := rfl
  rw [step]
  split <;> ring

theorem spaced_exact (low high : Rat) {count : Nat} (some : count ≠ 0) :
    spaced low high count =
      (List.range (count + 1)).map fun i : Nat => low + i * (high - low) / count := by
  have steps : (count : Rat) ≠ 0 := Nat.cast_ne_zero.mpr some
  have last : high = low + count * (high - low) / count := by
    field_simp
    ring
  rw [List.range_succ, List.map_append, List.map_singleton, ← last, spaced]
  congr 1
  exact List.map_congr_left fun i _ => stepPoint_exact low high count i

end Reckon.Scalar
