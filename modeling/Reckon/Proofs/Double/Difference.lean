import Reckon.Proofs.Double.Units

/-!
Differences of doubles.

The difference of two finite doubles is the exact one rounded to 53 bits, unless that is beyond the
doubles.
-/

set_option autoImplicit false

namespace Reckon.Double

open Float.Model Float.Model.UnpackedFloat

/-- The bits of the least size beyond the doubles, which is 2^1024. -/
@[irreducible] def overflowBits : Nat := 1024 + 1074

theorem overflowBits_eq : overflowBits = 2098 := by
  rw [overflowBits]

def overflow : Nat := 2 ^ overflowBits

/-! ## Results of a rounding -/

theorem carried_of_lt {s : Sign} {r : Nat} {t : Int} (positive : 0 < r) (short : r < 2 ^ 53) :
    carried s r t = .finite s r t positive := by
  rw [carried, dif_neg (by omega), if_pos short]

theorem carried_carry (s : Sign) (t : Int) :
    carried s (2 ^ 53) t = .finite s (2 ^ 52) (t + 1) (Nat.two_pow_pos 52) := rfl

theorem carry_mul (t : Int) (least : -1074 ≤ t) :
    2 ^ 52 * 2 ^ (t + 1 + 1074).toNat = 2 ^ 53 * 2 ^ (t + 1074).toNat := by
  have next : (t + 1 + 1074).toNat = (t + 1074).toNat + 1 := by omega
  rw [next]
  ring

theorem overflow_le_mul {r bits : Nat} {t : Int} (full : 2 ^ bits ≤ r)
    (large : overflowBits ≤ bits + (t + 1074).toNat) : overflow ≤ r * 2 ^ (t + 1074).toNat := by
  rw [overflow]
  calc 2 ^ overflowBits
      ≤ 2 ^ (bits + (t + 1074).toNat) := Nat.pow_le_pow_right Nat.two_pos large
    _ = 2 ^ bits * 2 ^ (t + 1074).toNat := Nat.pow_add _ _ _
    _ ≤ r * 2 ^ (t + 1074).toNat := Nat.mul_le_mul_right _ full

theorem mul_lt_overflow {r bits : Nat} {t : Int} (short : r < 2 ^ bits)
    (small : bits + (t + 1074).toNat ≤ overflowBits) : r * 2 ^ (t + 1074).toNat < overflow := by
  rw [overflow]
  calc r * 2 ^ (t + 1074).toNat
      < 2 ^ bits * 2 ^ (t + 1074).toNat := Nat.mul_lt_mul_of_pos_right short (Nat.two_pow_pos _)
    _ = 2 ^ (bits + (t + 1074).toNat) := (Nat.pow_add _ _ _).symm
    _ ≤ 2 ^ overflowBits := Nat.pow_le_pow_right Nat.two_pos small

/-- A rounded number is packed without a loss unless it is beyond the doubles. -/
theorem packed_carried {s : Sign} {r : Nat} {t : Int} (carry : r ≤ 2 ^ 53) (least : -1074 ≤ t)
    (full : 2 ^ 52 ≤ r ∨ t = -1074) (within : r * 2 ^ (t + 1074).toNat < overflow) :
    field (packed (carried s r t)) ≠ 2047 ∧ sign (packed (carried s r t)) = s ∧
      magnitude (packed (carried s r t)) = r * 2 ^ (t + 1074).toNat ∧
      (Binary.parts (packed (carried s r t))).2 ≤ t + 1 := by
  have bits := overflowBits_eq
  rcases Nat.eq_zero_or_pos r with zero | positive
  · subst zero
    obtain ⟨fieldIs, partsAre, signIs⟩ := packed_zero s
    change field (packed (.zero s)) ≠ 2047 ∧ sign (packed (.zero s)) = s ∧
      magnitude (packed (.zero s)) = _ ∧ (Binary.parts (packed (.zero s))).2 ≤ _
    refine ⟨by omega, signIs, ?_, ?_⟩
    · rw [magnitude, partsAre, Nat.zero_mul, Nat.zero_mul]
    · rw [partsAre]
      omega
  · rcases Nat.lt_or_eq_of_le carry with short | same
    · have small : t ≤ 971 := by
        by_contra large
        have long : 2 ^ 52 ≤ r := full.resolve_right (by omega)
        exact Nat.not_lt_of_le (overflow_le_mul long (by omega)) within
      obtain ⟨fieldIs, partsAre, signIs⟩ := packed_finite positive ⟨short, least, full⟩ small
      rw [carried_of_lt positive short]
      refine ⟨fieldIs, signIs, ?_, ?_⟩
      · rw [magnitude, partsAre]
      · rw [partsAre]
        omega
    · -- a carry out of the 53 bits raises the exponent, which still has to fit
      have small : t + 1 ≤ 971 := by
        by_contra large
        exact Nat.not_lt_of_le (overflow_le_mul same.ge (by omega)) within
      have canonical : Canonical (2 ^ 52) (t + 1) := ⟨by decide, by omega, .inl le_rfl⟩
      obtain ⟨fieldIs, partsAre, signIs⟩ := packed_finite (Nat.two_pow_pos 52) canonical small
      rw [same, carried_carry]
      refine ⟨fieldIs, signIs, ?_, ?_⟩
      · rw [magnitude, partsAre]
        exact carry_mul t least
      · rw [partsAre]

theorem packed_carried_overflow {s : Sign} {r : Nat} {t : Int} (carry : r ≤ 2 ^ 53)
    (least : -1074 ≤ t) (beyond : overflow ≤ r * 2 ^ (t + 1074).toNat) :
    (packed (carried s r t)).isFinite = false := by
  have bits := overflowBits_eq
  have positive : 0 < r := by
    by_contra zero
    obtain rfl : r = 0 := by omega
    rw [Nat.zero_mul, overflow] at beyond
    exact Nat.not_lt_of_le beyond (Nat.two_pow_pos _)
  rcases Nat.lt_or_eq_of_le carry with short | same
  · have large : 972 ≤ t := by
      by_contra small
      exact Nat.not_lt_of_le beyond (mul_lt_overflow short (by omega))
    rw [carried_of_lt positive short]
    exact packed_overflow positive large
  · have large : 972 ≤ t + 1 := by
      by_contra small
      have short : r < 2 ^ 54 := by omega
      exact Nat.not_lt_of_le beyond (mul_lt_overflow short (by omega))
    rw [same, carried_carry]
    exact packed_overflow _ large

/-! ## Exact numbers -/

theorem log2_mul_two_pow {m : Nat} (positive : 0 < m) (k : Nat) :
    (m * 2 ^ k).log2 = m.log2 + k := by
  induction k with
  | zero => simp
  | succ k ih =>
    have scaled : m * 2 ^ (k + 1) = 2 * (m * 2 ^ k) := by ring
    have nonzero : m * 2 ^ k ≠ 0 := by positivity
    rw [scaled, Nat.log2_two_mul nonzero, ih, Nat.add_assoc]

/-- The exponent of the rounded number is the one of the 53 bits that start where it starts. -/
theorem spacing_eq {m : Nat} {e : Int} (positive : 0 < m) (least : -1074 ≤ e) :
    Binary.spacing 53 (m * 2 ^ (e + 1074).toNat) = 2 ^ (target m e + 1074).toNat := by
  have log := log2_mul_two_pow positive (e + 1074).toNat
  rw [Binary.spacing, log]
  congr 1
  unfold target
  omega

theorem round_exact (s : Sign) {m : Nat} {e : Int} (positive : 0 < m) (least : -1074 ≤ e) :
    ∃ r, UnpackedFloat.round .binary64 s m e = carried s r (target m e) ∧ r ≤ 2 ^ 53 ∧
      (2 ^ 52 ≤ r ∨ target m e = -1074) ∧
      r * 2 ^ (target m e + 1074).toNat = Binary.roundBits 53 (m * 2 ^ (e + 1074).toNat) := by
  have floor : -1074 ≤ target m e := le_max_right _ _
  rw [Binary.roundBits_eq, spacing_eq positive least]
  unfold UnpackedFloat.round decreaseExponent
  simp only [targetExponent_eq]
  by_cases fine : e ≤ target m e
  · have none : (e - target m e).toNat = 0 := by omega
    have shifted := canonical_shifted fine
    have roundedIs := roundWithAccuracy_eq s fine .exact
    refine ⟨roundedAt m e .exact, ?_, ?_, ?_, ?_⟩
    · rw [none]
      simpa using roundedIs
    · exact (roundedAt_le m e .exact).trans shifted.short
    · exact shifted.full.imp_left fun full => full.trans (roundedAt_ge m e .exact)
    · have scale : 2 ^ (target m e + 1074).toNat =
          2 ^ (e + 1074).toNat * 2 ^ (target m e - e).toNat := by
        rw [← Nat.pow_add]
        congr 1
        omega
      rw [roundedAt_exact]
      congr 1
      rw [scale, Nat.mul_comm m, Binary.divEven_scale _ _ (Nat.two_pow_pos _)]
  · -- the mantissa is too short for its exponent, and lengthening it is exact
    have same : target (m * 2 ^ (e - target m e).toNat) (target m e) = target m e := by
      have log := log2_mul_two_pow positive (e - target m e).toNat
      rw [target, log]
      unfold target at fine ⊢
      omega
    have shifted := canonical_shifted same.ge
    have roundedIs := roundWithAccuracy_eq s same.ge .exact
    rw [roundedAt_exact] at roundedIs
    simp only [same, sub_self, Int.toNat_zero, Nat.pow_zero, Nat.div_one] at shifted roundedIs
    rw [Binary.divEven_one] at roundedIs
    refine ⟨m * 2 ^ (e - target m e).toNat, ?_, shifted.short.le, shifted.full, ?_⟩
    · have start : e - ((e - target m e).toNat : Int) = target m e := by omega
      rw [Nat.shiftLeft_eq, start]
      exact roundedIs
    · have split : 2 ^ (e + 1074).toNat =
          2 ^ (e - target m e).toNat * 2 ^ (target m e + 1074).toNat := by
        rw [← Nat.pow_add]
        congr 1
        omega
      rw [split, ← Nat.mul_assoc, Binary.divEven_mul_right _ (Nat.two_pow_pos _)]

/-- The rounding of an exact number, unless it is beyond the doubles. -/
theorem packed_round {s : Sign} {m : Nat} {e : Int} (positive : 0 < m) (least : -1074 ≤ e) :
    (Binary.roundBits 53 (m * 2 ^ (e + 1074).toNat) < overflow →
      field (packed (UnpackedFloat.round .binary64 s m e)) ≠ 2047 ∧
        units (packed (UnpackedFloat.round .binary64 s m e)) =
          s.apply (Binary.roundBits 53 (m * 2 ^ (e + 1074).toNat))) ∧
    (overflow ≤ Binary.roundBits 53 (m * 2 ^ (e + 1074).toNat) →
      (packed (UnpackedFloat.round .binary64 s m e)).isFinite = false) := by
  obtain ⟨r, roundIs, carry, full, exact⟩ := round_exact s positive least
  have floor : -1074 ≤ target m e := le_max_right _ _
  rw [roundIs, ← exact]
  constructor
  · intro within
    obtain ⟨fieldIs, signIs, magnitudeIs, _⟩ := packed_carried (s := s) carry floor full within
    exact ⟨fieldIs, by rw [units, signIs, magnitudeIs]⟩
  · exact packed_carried_overflow carry floor

def roundedUnits (n : Int) : Int :=
  n.sign * Binary.roundBits 53 n.natAbs

/-- The double is the exact multiple rounded, or it is not finite if that is beyond the doubles. -/
structure RoundsTo (x : Float) (n : Int) : Prop where
  finite : Binary.roundBits 53 n.natAbs < overflow → field x ≠ 2047 ∧ units x = roundedUnits n
  beyond : overflow ≤ Binary.roundBits 53 n.natAbs → x.isFinite = false

theorem RoundsTo.of_exact {x : Float} {n : Int} (finite : field x ≠ 2047) (exact : units x = n)
    (short : Binary.roundBits 53 n.natAbs = n.natAbs) (within : n.natAbs < overflow) :
    RoundsTo x n where
  finite _ := by
    refine ⟨finite, ?_⟩
    rw [roundedUnits, short, Int.sign_mul_natAbs, exact]
  beyond large := by
    rw [short] at large
    omega

theorem RoundsTo.zero (s : Sign) : RoundsTo (packed (.zero s)) 0 := by
  obtain ⟨fieldIs, partsAre, signIs⟩ := packed_zero s
  refine .of_exact ?_ ?_ rfl ?_
  · rw [fieldIs]
    decide
  · rw [units, magnitude, partsAre, signIs, Nat.zero_mul, Nat.cast_zero, apply_zero]
  · rw [overflow]
    exact Nat.two_pow_pos _

theorem apply_eq_sign_mul {s : Sign} {n : Int} (some : 0 < n.natAbs)
    (signed : s.apply n.natAbs = n) (r : Nat) : s.apply r = n.sign * r := by
  cases s with
  | negative =>
    have negative : n < 0 := by
      rw [← signed, Sign.apply]
      omega
    rw [Int.sign_eq_neg_one_of_neg negative, Int.neg_one_mul]
    rfl
  | positive =>
    have positive : 0 < n := by
      rw [← signed, Sign.apply]
      omega
    rw [Int.sign_eq_one_of_pos positive, Int.one_mul]
    rfl

theorem RoundsTo.round {s : Sign} {n e : Int} (some : 0 < n.natAbs)
    (signed : s.apply n.natAbs = n) (least : -1074 ≤ e) :
    RoundsTo (packed (UnpackedFloat.round .binary64 s n.natAbs e))
      (n * 2 ^ (e + 1074).toNat) := by
  have scale : 0 < (2 : Int) ^ (e + 1074).toNat := by positivity
  have size : (n * 2 ^ (e + 1074).toNat).natAbs = n.natAbs * 2 ^ (e + 1074).toNat := by
    rw [Int.natAbs_mul, Int.natAbs_pow]
    rfl
  have side : (n * 2 ^ (e + 1074).toNat).sign = n.sign := by
    rw [Int.sign_mul, Int.sign_eq_one_of_pos scale, Int.mul_one]
  obtain ⟨finite, beyond⟩ := packed_round (s := s) some least
  constructor
  · intro within
    rw [size] at within
    obtain ⟨fieldIs, unitsIs⟩ := finite within
    refine ⟨fieldIs, ?_⟩
    rw [unitsIs, apply_eq_sign_mul some signed, roundedUnits, side, size]
  · intro large
    rw [size] at large
    exact beyond large

theorem packed_normalize {n : Int} {e : Int} (least : -1074 ≤ e) (zeroSign : Sign) :
    RoundsTo (packed (UnpackedFloat.normalize .binary64 n e zeroSign))
      (n * 2 ^ (e + 1074).toNat) := by
  unfold UnpackedFloat.normalize
  rcases lt_trichotomy n 0 with negative | zero | positive
  · have order : compare n 0 = .lt := compare_lt_iff_lt.mpr negative
    have count : (-n).toNat = n.natAbs := by omega
    have signed : Sign.negative.apply n.natAbs = n := by
      rw [Sign.apply]
      omega
    rw [order]
    dsimp only
    rw [count]
    exact .round (by omega) signed least
  · subst zero
    rw [Int.zero_mul]
    exact .zero zeroSign
  · have order : compare n 0 = .gt := compare_gt_iff_gt.mpr positive
    have count : n.toNat = n.natAbs := by omega
    have signed : Sign.positive.apply n.natAbs = n := by
      rw [Sign.apply]
      omega
    rw [order]
    dsimp only
    rw [count]
    exact .round (by omega) signed least

/-! ## Subtraction -/

theorem exponent_le {x : Float} (finite : field x ≠ 2047) : (Binary.parts x).2 ≤ 971 := by
  have range : field x < 2 ^ 11 := Nat.mod_lt _ (Nat.two_pow_pos 11)
  rw [parts_eq]
  split <;> dsimp only <;> omega

theorem Canonical.target_eq {m : Nat} {e : Int} (canonical : Canonical m e) : target m e = e := by
  obtain ⟨short, least, full⟩ := canonical
  have bits := log2_le_of_lt short
  rcases full with full | lowest
  · have exact := log2_eq_of_full full short
    unfold target
    omega
  · unfold target
    omega

theorem roundBits_magnitude (x : Float) : Binary.roundBits 53 (magnitude x) = magnitude x := by
  have canonical := canonical_parts x
  rcases Nat.eq_zero_or_pos (Binary.parts x).1 with zero | positive
  · rw [magnitude, zero, Nat.zero_mul]
    rfl
  · rw [Binary.roundBits_eq, magnitude, spacing_eq positive canonical.least,
      canonical.target_eq, Binary.divEven_mul_right _ (Nat.two_pow_pos _)]

theorem magnitude_lt_overflow {x : Float} (finite : field x ≠ 2047) : magnitude x < overflow := by
  have bits := overflowBits_eq
  have small := exponent_le finite
  exact mul_lt_overflow (canonical_parts x).short (by omega)

theorem natAbs_apply (s : Sign) (n : Nat) : (s.apply n).natAbs = n := by
  cases s <;> simp [Sign.apply]

theorem apply_neg (s : Sign) (n : Int) : (-s).apply n = -s.apply n := by
  cases s with
  | negative => exact (Int.neg_neg n).symm
  | positive => rfl

theorem RoundsTo.parts {x : Float} (finite : field x ≠ 2047) (positive : 0 < (Binary.parts x).1)
    (s : Sign) :
    RoundsTo (packed (.finite s (Binary.parts x).1 (Binary.parts x).2 positive))
      (s.apply (magnitude x)) := by
  obtain ⟨fieldIs, partsAre, signIs⟩ :=
    packed_finite (s := s) positive (canonical_parts x) (exponent_le finite)
  refine .of_exact fieldIs ?_ ?_ ?_
  · rw [units, signIs, magnitude, partsAre, magnitude]
  · rw [natAbs_apply, roundBits_magnitude]
  · rw [natAbs_apply]
    exact magnitude_lt_overflow finite

theorem apply_mul (s : Sign) (n c : Int) : s.apply (n * c) = s.apply n * c := by
  cases s <;> simp [Sign.apply]

theorem units_lowered (x : Float) {e : Int} (least : -1074 ≤ e) (lower : e ≤ (Binary.parts x).2) :
    (sign x).apply ((Binary.parts x).1 <<< ((Binary.parts x).2 - e).toNat : Nat) *
      2 ^ (e + 1074).toNat = units x := by
  have split : ((Binary.parts x).2 + 1074).toNat =
      ((Binary.parts x).2 - e).toNat + (e + 1074).toNat := by omega
  rw [units, magnitude, split, Nat.pow_add, ← Nat.mul_assoc, Nat.shiftLeft_eq, ← apply_mul]
  push_cast
  rfl

/-- The difference of finite doubles is the exact one rounded to 53 bits. -/
theorem sub_roundsTo {x y : Float} (finiteX : field x ≠ 2047) (finiteY : field y ≠ 2047) :
    RoundsTo (x - y) (units x - units y) := by
  have opened : x - y = packed (UnpackedFloat.sub .binary64 x.toModel.unpack y.toModel.unpack) := rfl
  rw [opened, unpack_of_field finiteX, unpack_of_field finiteY]
  have none (z : Float) (zero : (Binary.parts z).1 = 0) : units z = 0 := by
    rw [units, (magnitude_eq_zero_iff z).mpr zero, Nat.cast_zero, apply_zero]
  by_cases zeroX : (Binary.parts x).1 = 0 <;> by_cases zeroY : (Binary.parts y).1 = 0
  · rw [dif_pos zeroX, dif_pos zeroY, none x zeroX, none y zeroY]
    change RoundsTo (packed (if _ then _ else _)) 0
    split
    · exact .zero _
    · exact .zero _
  · have positive := Nat.pos_of_ne_zero zeroY
    rw [dif_pos zeroX, dif_neg zeroY, none x zeroX, zero_sub, units, ← apply_neg]
    exact .parts finiteY positive _
  · have positive := Nat.pos_of_ne_zero zeroX
    rw [dif_neg zeroX, dif_pos zeroY, none y zeroY, sub_zero, units]
    exact .parts finiteX positive _
  · -- at the lower of the two exponents both mantissas are whole and their difference is exact
    have leastX := (canonical_parts x).least
    have leastY := (canonical_parts y).least
    have least : -1074 ≤ min (Binary.parts x).2 (Binary.parts y).2 := le_min leastX leastY
    have lowX := units_lowered x least (min_le_left _ _)
    have lowY := units_lowered y least (min_le_right _ _)
    rw [dif_neg zeroX, dif_neg zeroY, ← lowX, ← lowY, ← Int.sub_mul]
    exact packed_normalize least .positive

end Reckon.Double
