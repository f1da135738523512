import Reckon.Proofs.Double.Whole
import Reckon.Proofs.Scalar.Share

/-!
When doubles are the same, and differences of whole numbers.

A double that is not zero is told by its multiple of the least double. So the difference of two
whole numbers of up to 53 bits, taken as doubles, is the double nearest to their exact difference.
-/

set_option autoImplicit false

namespace Reckon.Double

open Float.Model Float.Model.UnpackedFloat

theorem eq_of_toBits {x y : Float} (same : x.toBits = y.toBits) : x = y := by
  obtain ⟨⟨bits, _⟩⟩ := x
  obtain ⟨⟨bits', _⟩⟩ := y
  obtain rfl : bits = bits' := same
  rfl

theorem eq_of_rank {x y : Float} (some : Binary.rank x ≠ 0)
    (same : Binary.rank x = Binary.rank y) : x = y := by
  have rangeX := toBits_toNat_lt x
  have rangeY := toBits_toNat_lt y
  refine eq_of_toBits (UInt64.toNat_inj.mp ?_)
  unfold Binary.rank Binary.isNegative at some same
  rw [Binary.twoPow_eq] at some same
  simp only [beq_iff_eq] at some same
  split at same <;> split at same <;> omega

theorem eq_of_units {x y : Float} (some : units x ≠ 0) (same : units x = units y) : x = y := by
  have increasing : StrictMono unitsOfRank := fun _ _ => unitsOfRank_lt
  rw [units_eq, units_eq] at same
  refine eq_of_rank (fun zero => some ?_) (increasing.injective same)
  rw [units_eq, zero]
  rfl

theorem sub_same {x : Float} (finite : field x ≠ 2047) : x - x = packed (.zero .positive) := by
  have opened : x - x = packed (UnpackedFloat.sub .binary64 x.toModel.unpack x.toModel.unpack) :=
    rfl
  rw [opened]
  rcases unpack_cases finite with zero | ⟨_, some⟩
  · rw [zero]
    cases sign x <;> rfl
  · rw [some]
    dsimp only [UnpackedFloat.sub]
    rw [Int.sub_self]
    rfl

/-! ## Whole numbers with a sign -/

theorem one_le_roundBits {n : Nat} (some : 1 ≤ n) : 1 ≤ Binary.roundBits 53 n := by
  have one : Binary.roundBits 53 1 = 1 := by decide
  have mono := Binary.roundBits_mono (by decide : 1 ≤ 53) some
  rwa [one] at mono

theorem roundBits_le {n : Nat} (short : n ≤ 2 ^ 54) : Binary.roundBits 53 n ≤ 2 ^ 54 := by
  have top : Binary.roundBits 53 (2 ^ 54) = 2 ^ 54 := by decide
  have mono := Binary.roundBits_mono (by decide : 1 ≤ 53) short
  rwa [top] at mono

theorem roundedUnits_mul (n : Int) :
    roundedUnits (n * 2 ^ unitBits) =
      n.sign * (Binary.roundBits 53 n.natAbs * 2 ^ unitBits : Nat) := by
  have positive : 0 < (2 : Int) ^ unitBits := by positivity
  have size : (n * 2 ^ unitBits).natAbs = n.natAbs * 2 ^ unitBits := by
    rw [Int.natAbs_mul, Int.natAbs_pow]
    rfl
  rw [roundedUnits, Int.sign_mul, Int.sign_eq_one_of_pos positive, Int.mul_one, size,
    Scalar.roundBits_mul_pow]

theorem units_ofInt {n : Int} (short : n.natAbs ≤ 2 ^ 54) :
    field (Scalar.ofInt n : Float) ≠ 2047 ∧
      units (Scalar.ofInt n : Float) = roundedUnits (n * 2 ^ unitBits) := by
  change field (Binary.ofRatio (decide (n < 0)) n.natAbs 1) ≠ 2047 ∧
    units (Binary.ofRatio (decide (n < 0)) n.natAbs 1) = _
  by_cases zero : n = 0
  · subst zero
    have none : Binary.ofRatio (decide ((0 : Int) < 0)) (Int.natAbs 0) 1 = packed (.zero .positive) :=
      eq_of_toBits (by decide)
    obtain ⟨fieldIs, partsAre, signIs⟩ := packed_zero .positive
    rw [none, units, magnitude, partsAre, signIs, fieldIs, Nat.zero_mul, Nat.cast_zero, apply_zero,
      Int.zero_mul]
    exact ⟨by decide, rfl⟩
  · have log := log2_le_of_le short
    obtain ⟨finite, signIs, size⟩ := ofRatio_rounds (decide (n < 0)) (by omega : 1 ≤ n.natAbs)
      (by omega)
    refine ⟨finite, ?_⟩
    have signed : (signOf (decide (n < 0))).apply n.natAbs = n := by
      unfold signOf
      split
      · next negative =>
        have below := of_decide_eq_true negative
        change -(n.natAbs : Int) = n
        omega
      · next nonneg =>
        have above := mt (decide_eq_true (p := n < 0)) nonneg
        change (n.natAbs : Int) = n
        omega
    rw [roundedUnits_mul, units, signIs, size, apply_eq_sign_mul (by omega) signed]

theorem units_ofInt_whole {n : Int} (short : n.natAbs ≤ 2 ^ 53) :
    field (Scalar.ofInt n : Float) ≠ 2047 ∧
      units (Scalar.ofInt n : Float) = n * 2 ^ unitBits := by
  obtain ⟨finite, value⟩ := units_ofInt (by omega : n.natAbs ≤ 2 ^ 54)
  refine ⟨finite, ?_⟩
  rw [value, roundedUnits_mul, roundBits_of_le short, Nat.cast_mul, ← Int.mul_assoc,
    Int.sign_mul_natAbs]
  push_cast
  rfl

/-- Whole numbers of up to 53 bits are subtracted as if the difference were rounded only once. -/
theorem ofInt_sub {a b : Int} (shortA : a.natAbs ≤ 2 ^ 53) (shortB : b.natAbs ≤ 2 ^ 53) :
    (Scalar.ofInt a - Scalar.ofInt b : Float) = Scalar.ofInt (a - b) := by
  obtain ⟨finiteA, valueA⟩ := units_ofInt_whole shortA
  obtain ⟨finiteB, valueB⟩ := units_ofInt_whole shortB
  by_cases same : a = b
  · subst same
    rw [sub_same finiteA, Int.sub_self]
    exact eq_of_toBits (by decide)
  · have short : (a - b).natAbs ≤ 2 ^ 54 := by omega
    obtain ⟨_, value⟩ := units_ofInt short
    have rounded := sub_roundsTo finiteA finiteB
    have size : ((a - b) * 2 ^ unitBits).natAbs = (a - b).natAbs * 2 ^ unitBits := by
      rw [Int.natAbs_mul, Int.natAbs_pow]
      rfl
    have within : Binary.roundBits 53 ((a - b) * 2 ^ unitBits).natAbs < overflow := by
      have bits := unitBits_eq
      have limit := overflowBits_eq
      rw [size, Scalar.roundBits_mul_pow, overflow]
      calc Binary.roundBits 53 (a - b).natAbs * 2 ^ unitBits
          ≤ 2 ^ 54 * 2 ^ unitBits := Nat.mul_le_mul_right _ (roundBits_le short)
        _ = 2 ^ (54 + unitBits) := (Nat.pow_add _ _ _).symm
        _ < 2 ^ overflowBits := Nat.pow_lt_pow_right (by decide) (by omega)
    rw [valueA, valueB, ← Int.sub_mul] at rounded
    have difference := (rounded.finite within).2
    refine eq_of_units ?_ (difference.trans value.symm)
    rw [difference, roundedUnits_mul]
    refine mul_ne_zero (fun zero => same ?_) ?_
    · rw [Int.sign_eq_zero_iff_zero] at zero
      omega
    · have some := one_le_roundBits (by omega : 1 ≤ (a - b).natAbs)
      exact_mod_cast (Nat.mul_pos some (Nat.two_pow_pos unitBits)).ne'

end Reckon.Double
