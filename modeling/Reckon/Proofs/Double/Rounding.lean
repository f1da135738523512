import Reckon.Proofs.Double.Nearest

/-!
How the arithmetic of doubles rounds.

A mantissa of any length is shifted to the exponent that leaves it 53 bits, with the bits that fall
out deciding between the two neighbours; a carry out of the 53 bits moves the exponent by one more.
-/

set_option autoImplicit false

namespace Reckon.Double

open Float.Model Float.Model.UnpackedFloat

/-! ## Shifting -/

theorem shift_zero (em : ExtendedMantissa) : em >>> 0 = em := rfl

theorem shift_succ (em : ExtendedMantissa) (k : Nat) :
    em >>> (k + 1) = (em >>> k).shiftRightOne := rfl

theorem mantissa_shift (em : ExtendedMantissa) (k : Nat) :
    (em >>> k).mantissa = em.mantissa / 2 ^ k := by
  induction k with
  | zero => simp [shift_zero]
  | succ k ih =>
    rw [shift_succ, ExtendedMantissa.shiftRightOne, ih, Nat.div_div_eq_div_mul, Nat.pow_succ]

/-- The two bits that a shift keeps of what falls out: the last one, and whether any other is set. -/
theorem shift_exact (m k : Nat) :
    (ExtendedMantissa.mk m false false) >>> (k + 1) =
      ⟨m / 2 ^ (k + 1), m / 2 ^ k % 2 != 0, m % 2 ^ k != 0⟩ := by
  induction k with
  | zero => simp [shift_succ, shift_zero, ExtendedMantissa.shiftRightOne, Nat.mod_one]
  | succ k ih =>
    have rest : m % 2 ^ (k + 1) = m % 2 ^ k + 2 ^ k * (m / 2 ^ k % 2) := Nat.mod_pow_succ
    have positive : 0 < 2 ^ k := Nat.two_pow_pos k
    rw [shift_succ, ih, rest]
    simp only [ExtendedMantissa.shiftRightOne, Nat.div_div_eq_div_mul, ← Nat.pow_succ]
    congr 1
    rcases Nat.mod_two_eq_zero_or_one (m / 2 ^ k) with even | odd
    · simp [even]
    · simp [odd]

theorem roundedMantissa_ge (em : ExtendedMantissa) : em.mantissa ≤ em.roundedMantissa := by
  obtain ⟨m, first, others⟩ := em
  cases first <;> cases others <;>
    simp [ExtendedMantissa.roundedMantissa, ExtendedMantissa.accuracy, Accuracy.roundToNearestEven]

theorem roundedMantissa_le (em : ExtendedMantissa) : em.roundedMantissa ≤ em.mantissa + 1 := by
  obtain ⟨m, first, others⟩ := em
  cases first <;> cases others <;>
    simp [ExtendedMantissa.roundedMantissa, ExtendedMantissa.accuracy, Accuracy.roundToNearestEven]
  omega

/-- An exact number is rounded to the nearest one, a tie going to the even one. -/
theorem roundedMantissa_exact (m k : Nat) :
    ((ExtendedMantissa.mk m false false) >>> k).roundedMantissa = Binary.divEven m (2 ^ k) := by
  cases k with
  | zero =>
    rw [Nat.pow_zero, Binary.divEven_one]
    rfl
  | succ k =>
    rw [shift_exact]
    have rest : m % 2 ^ (k + 1) = m % 2 ^ k + 2 ^ k * (m / 2 ^ k % 2) := Nat.mod_pow_succ
    have low : m % 2 ^ k < 2 ^ k := Nat.mod_lt _ (Nat.two_pow_pos k)
    have double : 2 ^ (k + 1) = 2 * 2 ^ k := by rw [Nat.pow_succ, Nat.mul_comm]
    unfold Binary.divEven
    dsimp only
    rw [rest]
    rcases Nat.mod_two_eq_zero_or_one (m / 2 ^ k) with even | odd
    · -- less than half falls out
      rw [even, if_pos (by omega)]
      cases exact : m % 2 ^ k != 0 <;> rfl
    · rw [odd, if_neg (by omega)]
      by_cases exact : m % 2 ^ k = 0
      · rw [if_neg (by omega), exact]
        change m / 2 ^ (k + 1) + m / 2 ^ (k + 1) % 2 = _
        split <;> omega
      · have more : (m % 2 ^ k != 0) = true := by simpa using exact
        rw [if_pos (by omega), more]
        rfl

/-! ## Rounding to 53 bits -/

/-- The exponent that leaves the mantissa 53 bits, or the least one. -/
def target (m : Nat) (e : Int) : Int :=
  max (m.log2 + 1 + e - 53) (-1074)

theorem targetExponent_eq (m : Nat) (e : Int) :
    Format.binary64.targetExponent (totalExponent m e) = target m e := rfl

/-- A mantissa of at most 53 bits has the exponent that belongs to it. -/
structure Canonical (m : Nat) (e : Int) : Prop where
  short : m < 2 ^ 53
  least : -1074 ≤ e
  full : 2 ^ 52 ≤ m ∨ e = -1074

/-- The double with a rounded mantissa: a carry out of the 53 bits goes to the exponent. -/
def carried (sign : Sign) (r : Nat) (e : Int) : UnpackedFloat :=
  if zero : r = 0 then .zero sign
  else if r < 2 ^ 53 then .finite sign r e (Nat.pos_of_ne_zero zero)
  else .finite sign (2 ^ 52) (e + 1) (Nat.two_pow_pos 52)

theorem log2_le_of_lt {m : Nat} (short : m < 2 ^ 53) : m.log2 ≤ 52 := by
  rcases Nat.eq_zero_or_pos m with zero | positive
  · simp [zero]
  · have := (Nat.log2_lt (by omega)).mpr short
    omega

theorem shiftToTargetExponent_short {m : Nat} {e : Int} (short : m < 2 ^ 53) (least : -1074 ≤ e) :
    shiftToTargetExponent .binary64 m e .exact = (⟨m, false, false⟩, e) := by
  have bits := log2_le_of_lt short
  have none : (target m e - e).toNat = 0 := by
    unfold target
    omega
  simp only [shiftToTargetExponent, shiftToExponent, targetExponent_eq, none]
  simp [ExtendedMantissa.ofMantissaAndAccuracy, shift_zero]

theorem shiftToTargetExponent_carry {e : Int} (least : -1074 ≤ e) :
    shiftToTargetExponent .binary64 (2 ^ 53) e .exact = (⟨2 ^ 52, false, false⟩, e + 1) := by
  have one : (target (2 ^ 53) e - e).toNat = 1 := by
    unfold target
    rw [Nat.log2_two_pow]
    omega
  simp only [shiftToTargetExponent, shiftToExponent, targetExponent_eq, one]
  rfl

/-- The mantissa that is left after the shift has at most 53 bits, and it has all of them unless the
exponent is the least one. -/
theorem canonical_shifted {m : Nat} {e : Int} (fine : e ≤ target m e) :
    Canonical (m / 2 ^ (target m e - e).toNat) (target m e) := by
  refine ⟨?_, le_max_right _ _, ?_⟩
  · rw [Nat.div_lt_iff_lt_mul (Nat.two_pow_pos _), ← Nat.pow_add]
    refine Nat.lt_of_lt_of_le Nat.lt_log2_self (Nat.pow_le_pow_right Nat.two_pos ?_)
    unfold target
    omega
  · rcases Nat.eq_zero_or_pos m with zero | positive
    · right
      subst zero
      simp only [target, Nat.log2_zero] at fine ⊢
      omega
    · by_cases least : target m e = -1074
      · exact .inr least
      · left
        rw [Nat.le_div_iff_mul_le (Nat.two_pow_pos _), ← Nat.pow_add]
        have bits : 52 + (target m e - e).toNat = m.log2 := by
          unfold target at least fine ⊢
          omega
        rw [bits]
        exact Nat.log2_self_le (by omega)

def roundedAt (m : Nat) (e : Int) (accuracy : Accuracy) : Nat :=
  (ExtendedMantissa.ofMantissaAndAccuracy m accuracy >>> (target m e - e).toNat).roundedMantissa

theorem mantissa_ofMantissaAndAccuracy (m : Nat) (accuracy : Accuracy) :
    (ExtendedMantissa.ofMantissaAndAccuracy m accuracy).mantissa = m := by
  cases accuracy with
  | exact => rfl
  | inexact side => cases side <;> rfl

theorem roundedAt_ge (m : Nat) (e : Int) (accuracy : Accuracy) :
    m / 2 ^ (target m e - e).toNat ≤ roundedAt m e accuracy := by
  have bound := roundedMantissa_ge
    (ExtendedMantissa.ofMantissaAndAccuracy m accuracy >>> (target m e - e).toNat)
  rwa [mantissa_shift, mantissa_ofMantissaAndAccuracy] at bound

theorem roundedAt_le (m : Nat) (e : Int) (accuracy : Accuracy) :
    roundedAt m e accuracy ≤ m / 2 ^ (target m e - e).toNat + 1 := by
  have bound := roundedMantissa_le
    (ExtendedMantissa.ofMantissaAndAccuracy m accuracy >>> (target m e - e).toNat)
  rwa [mantissa_shift, mantissa_ofMantissaAndAccuracy] at bound

theorem roundedAt_exact (m : Nat) (e : Int) :
    roundedAt m e .exact = Binary.divEven m (2 ^ (target m e - e).toNat) :=
  roundedMantissa_exact m _

def settled (sign : Sign) (shifted : ExtendedMantissa × Int) : UnpackedFloat :=
  if zero : shifted.1.mantissa = 0 then .zero sign
  else .finite sign shifted.1.mantissa shifted.2 (Nat.pos_of_ne_zero zero)

theorem roundWithAccuracy_eq (sign : Sign) {m : Nat} {e : Int} (fine : e ≤ target m e)
    (accuracy : Accuracy) :
    roundWithAccuracy .binary64 sign m e accuracy =
      carried sign (roundedAt m e accuracy) (target m e) := by
  have first : shiftToTargetExponent .binary64 m e accuracy =
      (ExtendedMantissa.ofMantissaAndAccuracy m accuracy >>> (target m e - e).toNat,
        target m e) := by
    simp only [shiftToTargetExponent, shiftToExponent, targetExponent_eq]
    congr 1
    omega
  have second : roundWithAccuracy .binary64 sign m e accuracy =
      settled sign (shiftToTargetExponent .binary64 (roundedAt m e accuracy) (target m e)
        .exact) := by
    unfold roundWithAccuracy
    rw [first]
    rfl
  have shifted := canonical_shifted fine
  have le : roundedAt m e accuracy ≤ 2 ^ 53 :=
    (roundedAt_le m e accuracy).trans shifted.short
  -- the second shift only takes up a carry
  rw [second]
  rcases Nat.lt_or_eq_of_le le with short | carry
  · rw [shiftToTargetExponent_short short shifted.least, carried]
    by_cases zero : roundedAt m e accuracy = 0
    · rw [dif_pos zero]
      exact dif_pos zero
    · rw [dif_neg zero, if_pos short]
      exact dif_neg zero
  · rw [carry, shiftToTargetExponent_carry shifted.least]
    rfl

end Reckon.Double
