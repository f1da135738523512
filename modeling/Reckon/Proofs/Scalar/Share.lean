import Reckon.Proofs.Double.Quotient
import Reckon.Proofs.Scalar.Exact

/-!
Shares of a count as doubles compute them.

The product of a count and a share below one is rounded to 53 bits before its fraction is dropped.
Rounding keeps the order and never leads to the count itself. The shares that a summary shows are
decimal, so none of them is a double, but the count of each is that of the decimal share.
-/

set_option autoImplicit false

namespace Reckon.Scalar

open Double

theorem roundBits_mul_lt {count mantissa scale : Nat} (some : 0 < count)
    (short : mantissa < 2 ^ 53) (belowOne : mantissa < 2 ^ scale) :
    Binary.roundBits 53 (count * mantissa) < count * 2 ^ scale := by
  have half := Binary.roundBits_le_half 53 (count * mantissa)
  have room : count * mantissa + count ≤ count * 2 ^ scale := by
    rw [← Nat.mul_succ]
    exact Nat.mul_le_mul_left _ belowOne
  have fine : Binary.spacing 53 (count * mantissa) < 2 * count := by
    by_cases long : 53 ≤ (count * mantissa).log2
    · have positive : count * mantissa ≠ 0 := by
        intro zero
        rw [zero, Nat.log2_zero] at long
        omega
      have spacingIs : Binary.spacing 53 (count * mantissa) * 2 ^ 52 =
          2 ^ (count * mantissa).log2 := by
        rw [Binary.spacing, ← Nat.pow_add]
        congr 1
        omega
      have power := Nat.log2_self_le positive
      have product : count * mantissa < count * 2 ^ 53 := Nat.mul_lt_mul_of_pos_left short some
      omega
    · have one := Binary.spacing_of_log2_lt (Nat.lt_of_not_le long)
      omega
  omega

theorem log2_mul_pow_le {m : Nat} (short : m < 2 ^ 53) (k : Nat) :
    (m * 2 ^ k).log2 + 1 - 53 ≤ k := by
  rcases Nat.eq_zero_or_pos m with zero | positive
  · simp [zero]
  · have bits := log2_le_of_lt short
    rw [log2_mul_two_pow positive]
    omega

theorem roundBits_of_short {m : Nat} (short : m < 2 ^ 53) (k : Nat) :
    Binary.roundBits 53 (m * 2 ^ k) = m * 2 ^ k :=
  Binary.roundBits_of_dvd ((Nat.pow_dvd_pow 2 (log2_mul_pow_le short k)).mul_left m)

theorem roundBits_mul_pow (n k : Nat) :
    Binary.roundBits 53 (n * 2 ^ k) = Binary.roundBits 53 n * 2 ^ k := by
  rcases Nat.lt_or_ge n (2 ^ 53) with short | long
  · have whole := roundBits_of_short short 0
    rw [Nat.pow_zero, Nat.mul_one] at whole
    rw [roundBits_of_short short, whole]
  · have positive : 0 < n := by omega
    have bits : 53 ≤ n.log2 := (Nat.le_log2 positive.ne').mpr long
    have spacing : Binary.spacing 53 (n * 2 ^ k) = 2 ^ k * Binary.spacing 53 n := by
      rw [Binary.spacing, log2_mul_two_pow positive, Binary.spacing, ← Nat.pow_add]
      congr 1
      omega
    rw [Binary.roundBits_eq, Binary.roundBits_eq, spacing, Nat.mul_comm n,
      Binary.divEven_scale _ _ (Nat.two_pow_pos k)]
    ring

/-! ## Doubles from zero up to one -/

theorem doubleShare_of_fraction {count : Nat} {part : Float}
    (unsigned : Binary.isNegative part = false) (fraction : (Binary.parts part).2 < 0) :
    doubleShare count part = (Binary.roundBits 53 (count * (Binary.parts part).1) /
      2 ^ (-(Binary.parts part).2).toNat : Nat) := by
  simp only [doubleShare, unsigned, Bool.false_eq_true, if_false]
  rw [if_neg (by omega)]
  rfl

theorem isNegative_of_sign {x : Float} (positive : sign x = .positive) :
    Binary.isNegative x = false := by
  cases negative : Binary.isNegative x with
  | true =>
    rw [sign, if_pos negative] at positive
    cases positive
  | false => rfl

theorem units_zero : units (ofInt 0) = 0 := by
  have parts : Binary.parts (ofInt 0) = (0, -1074) := by decide +kernel
  rw [units, magnitude, parts, Nat.zero_mul, Nat.cast_zero, apply_zero]

theorem units_one : units (ofInt 1) = (2 ^ unitBits : Nat) := by
  have parts : Binary.parts (ofInt 1) = (2 ^ 52, -52) := by decide +kernel
  have unsigned : Binary.isNegative (ofInt 1) = false := by decide +kernel
  have signIs : sign (ofInt 1 : Float) = .positive := by
    rw [sign, unsigned]
    rfl
  have bits : unitBits = 52 + (-52 + 1074 : Int).toNat := unitBits_eq
  rw [units_of_positive signIs, magnitude, parts, bits, Nat.pow_add]

def isShare (q : Float) : Bool :=
  le (ofInt 0) q && lt q (ofInt 1)

theorem isShare_of_lt {q : Float} (nonneg : 0 ≤ q) (belowOne : q < 1) : isShare q = true :=
  Bool.and_eq_true_iff.mpr ⟨decide_eq_true nonneg, decide_eq_true belowOne⟩

theorem finite_of_isShare {q : Float} (share : isShare q = true) : field q ≠ 2047 := by
  intro all
  rw [isShare, Bool.and_eq_true] at share
  have lower : ((ofInt 0 : Float).toModel.unpack.compare q.toModel.unpack).any (·.isLE) = true :=
    of_decide_eq_true (of_decide_eq_true share.1)
  have upper : (q.toModel.unpack.compare (ofInt 1 : Float).toModel.unpack == some .lt) = true :=
    of_decide_eq_true (of_decide_eq_true share.2)
  -- what is not a number compares with nothing, and an infinity lies beyond one of the two ends
  rcases unpack_of_all all with unpacked | ⟨infinitySign, unpacked⟩
  · rw [unpacked] at upper
    cases upper
  · cases infinitySign with
    | negative =>
      rw [unpacked] at lower
      cases lower
    | positive =>
      rw [unpacked] at upper
      cases upper

theorem units_of_isShare {q : Float} (share : isShare q = true) :
    0 ≤ units q ∧ units q < (2 ^ unitBits : Nat) := by
  have finite := finite_of_isShare share
  have finiteZero : field (ofInt 0) ≠ 2047 := by decide +kernel
  have finiteOne : field (ofInt 1) ≠ 2047 := by decide +kernel
  rw [isShare, Bool.and_eq_true] at share
  have lower := (le_iff finiteZero finite).mp (of_decide_eq_true share.1)
  have upper := (lt_iff finite finiteOne).mp (of_decide_eq_true share.2)
  rw [units_zero] at lower
  rw [units_one] at upper
  exact ⟨lower, upper⟩

section

variable {count : Nat} {q : Float} (share : isShare q = true)

include share

theorem fraction_of_share (positive : 0 < (Binary.parts q).1) :
    Binary.isNegative q = false ∧ (Binary.parts q).2 < 0 ∧
      (Binary.parts q).1 < 2 ^ (-(Binary.parts q).2).toNat := by
  obtain ⟨nonneg, below⟩ := units_of_isShare share
  have bits := unitBits_eq
  have signIs := sign_of_units ((magnitude_pos_iff q).mpr positive) nonneg
  rw [units_of_positive signIs, magnitude] at below
  have size := Int.ofNat_lt.mp below
  -- with no fraction the share would be at least one
  have fraction : (Binary.parts q).2 < 0 := by
    by_contra whole
    refine Nat.not_lt_of_le ?_ size
    calc 2 ^ unitBits
        ≤ 2 ^ ((Binary.parts q).2 + 1074).toNat := Nat.pow_le_pow_right Nat.two_pos (by omega)
      _ ≤ (Binary.parts q).1 * 2 ^ ((Binary.parts q).2 + 1074).toNat :=
          Nat.le_mul_of_pos_left _ positive
  refine ⟨isNegative_of_sign signIs, fraction, ?_⟩
  rw [unitBits_of_fraction fraction, Nat.pow_add] at size
  exact Nat.lt_of_mul_lt_mul_right size

/-- The rounded product of a count and a share is less than the count. -/
theorem roundBits_share_lt (some : 0 < count) :
    Binary.roundBits 53 (count * magnitude q) < count * 2 ^ unitBits := by
  rcases Nat.eq_zero_or_pos (Binary.parts q).1 with zero | positive
  · have none : Binary.roundBits 53 0 = 0 := rfl
    rw [(magnitude_eq_zero_iff q).mpr zero, Nat.mul_zero, none]
    exact Nat.mul_pos some (Nat.two_pow_pos _)
  · obtain ⟨_, fraction, belowOne⟩ := fraction_of_share share positive
    rw [magnitude, ← Nat.mul_assoc, roundBits_mul_pow, unitBits_of_fraction fraction, Nat.pow_add,
      ← Nat.mul_assoc]
    exact Nat.mul_lt_mul_of_pos_right
      (roundBits_mul_lt some (canonical_parts q).short belowOne) (Nat.two_pow_pos _)

theorem doubleShare_eq :
    doubleShare count q = (Binary.roundBits 53 (count * magnitude q) / 2 ^ unitBits : Nat) := by
  rcases Nat.eq_zero_or_pos (Binary.parts q).1 with zero | positive
  · have none : magnitude q = 0 := (magnitude_eq_zero_iff q).mpr zero
    simp only [doubleShare, zero, none, Nat.mul_zero]
    split <;> split <;> simp [Binary.roundBits, Binary.divEven]
  · obtain ⟨unsigned, fraction, _⟩ := fraction_of_share share positive
    rw [doubleShare_of_fraction unsigned fraction, magnitude, ← Nat.mul_assoc, roundBits_mul_pow,
      unitBits_of_fraction fraction, Nat.pow_add, Nat.mul_div_mul_right _ _ (Nat.two_pow_pos _)]

/-- A share of a count is an index below the count, however the product is rounded. -/
theorem doubleShare_lt (some : 0 < count) :
    0 ≤ doubleShare count q ∧ doubleShare count q < count := by
  have quotient := (Nat.div_lt_iff_lt_mul (Nat.two_pow_pos _)).mpr (roundBits_share_lt share some)
  rw [doubleShare_eq share]
  exact ⟨Int.natCast_nonneg _, Int.ofNat_lt.mpr quotient⟩

theorem doubleShare_mono {q' : Float} (share' : isShare q' = true) (le : q ≤ q') :
    doubleShare count q ≤ doubleShare count q' := by
  have order := (le_iff (finite_of_isShare share) (finite_of_isShare share')).mp le
  have size := magnitude_of_nonneg (units_of_isShare share).1
  have size' := magnitude_of_nonneg (units_of_isShare share').1
  have sizes : magnitude q ≤ magnitude q' := by omega
  rw [doubleShare_eq share, doubleShare_eq share']
  exact Int.ofNat_le.mpr (Nat.div_le_div_right
    (Binary.roundBits_mono (by decide) (Nat.mul_le_mul_left count sizes)))

end

/-! ## Decimal shares -/

/-- The double stands for the fraction: it is above it by no more than a unit of its last bit, and
so little below it that the rounding of a product makes up for it. -/
structure StandsFor (q : Float) (p : Rat) : Prop where
  nonneg : 0 ≤ p.num
  proper : p.num.toNat ≤ p.den
  coarse : p.den ≤ 2 ^ 6
  unsigned : Binary.isNegative q = false
  fine : (Binary.parts q).2 ≤ -53
  above : (Binary.parts q).1 * p.den ≤ p.num.toNat * 2 ^ (-(Binary.parts q).2).toNat + p.den
  below :
    2 * (p.num.toNat * 2 ^ (-(Binary.parts q).2).toNat - (Binary.parts q).1 * p.den) * 2 ^ 53 ≤
      p.den * (Binary.parts q).1

theorem share_le (count : Nat) {a b : Nat} (proper : a ≤ b) : count * a / b ≤ count := by
  refine Nat.div_le_of_le_mul ?_
  rw [Nat.mul_comm b]
  exact Nat.mul_le_mul_left count proper

section

variable {count m k a b : Nat} (few : count < 2 ^ 45) (some : 0 < b)

include few some

/-- A product that is above a multiple of the fraction by a little is not rounded up to the next
whole number. -/
theorem roundBits_lt_of_above (coarse : b ≤ 2 ^ 6) (proper : a ≤ b) (fine : 53 ≤ k)
    (above : m * b ≤ a * 2 ^ k + b) :
    Binary.roundBits 53 (count * m) < (count * a / b + 1) * 2 ^ k := by
  obtain ⟨j, rfl⟩ : ∃ j, k = j + 8 := ⟨k - 8, by omega⟩
  have whole := share_le count proper
  have rest : count * a + 1 ≤ b * (count * a / b + 1) := Nat.lt_mul_div_succ _ some
  generalize count * a / b = t at whole rest ⊢
  -- the last number of 53 bits before the next whole number
  obtain ⟨u, last⟩ : ∃ u, u + 1 = (t + 1) * 2 ^ 7 := ⟨(t + 1) * 2 ^ 7 - 1, by omega⟩
  have step : count ≤ 2 ^ j := few.le.trans (Nat.pow_le_pow_right Nat.two_pos (by omega))
  have next : (u + 1) * 2 ^ (j + 1) = (t + 1) * 2 ^ (j + 8) := by
    rw [last, Nat.mul_assoc, ← Nat.pow_add]
    congr 2
    omega
  have product : count * m ≤ u * 2 ^ (j + 1) := by
    refine Nat.le_of_mul_le_mul_left ?_ some
    have scaled : (count * a + 1) * 2 ^ (j + 8) ≤ b * ((u + 1) * 2 ^ (j + 1)) := by
      rw [next, ← Nat.mul_assoc]
      exact Nat.mul_le_mul_right _ rest
    have counted : count * (m * b) ≤ count * (a * 2 ^ (j + 8) + b) :=
      Nat.mul_le_mul_left count above
    have steps : count * b ≤ 2 ^ j * b := Nat.mul_le_mul_right b step
    have coarser : b * 2 ^ j ≤ 2 ^ 6 * 2 ^ j := Nat.mul_le_mul_right _ coarse
    simp only [Nat.pow_add] at scaled counted ⊢
    linarith
  calc Binary.roundBits 53 (count * m)
      ≤ Binary.roundBits 53 (u * 2 ^ (j + 1)) := Binary.roundBits_mono (by decide) product
    _ = u * 2 ^ (j + 1) := roundBits_of_short (by omega) _
    _ < (u + 1) * 2 ^ (j + 1) :=
        Nat.mul_lt_mul_of_pos_right (Nat.lt_succ_self u) (Nat.two_pow_pos _)
    _ = (t + 1) * 2 ^ (j + 8) := next

/-- A product that is below a multiple of the fraction by a little is not rounded down beyond a
whole number. -/
theorem le_roundBits_of_below (proper : a ≤ b)
    (below : 2 * (a * 2 ^ k - m * b) * 2 ^ 53 ≤ b * m) :
    count * a / b * 2 ^ k ≤ Binary.roundBits 53 (count * m) := by
  have whole := share_le count proper
  have rest : count * a / b * b ≤ count * a := Nat.div_mul_le_self _ b
  generalize count * a / b = t at whole rest ⊢
  rcases Nat.le_total (t * 2 ^ k) (count * m) with up | down
  · calc t * 2 ^ k
        = Binary.roundBits 53 (t * 2 ^ k) := (roundBits_of_short (by omega) k).symm
      _ ≤ Binary.roundBits 53 (count * m) := Binary.roundBits_mono (by decide) up
  · -- the whole number is on the grid of the product and less than half a step above it
    have bits : (count * m).log2 < 53 + k := by
      rcases Nat.eq_zero_or_pos (count * m) with zero | positive
      · rw [zero, Nat.log2_zero]
        omega
      · refine (Nat.log2_lt positive.ne').mpr (down.trans_lt ?_)
        rw [Nat.pow_add]
        exact Nat.mul_lt_mul_of_pos_right (by omega) (Nat.two_pow_pos k)
    refine Binary.le_roundBits ((Nat.pow_dvd_pow 2 (by omega)).mul_left t) ?_
    have length := Binary.lt_spacing_mul 53 (count * m)
    have gap : b * (t * 2 ^ k) ≤ b * (count * m) + count * (a * 2 ^ k - m * b) := by
      have scaled : t * b * 2 ^ k ≤ count * a * 2 ^ k := Nat.mul_le_mul_right _ rest
      have parts : count * (a * 2 ^ k) ≤ count * (m * b + (a * 2 ^ k - m * b)) :=
        Nat.mul_le_mul_left count (by omega)
      linarith
    have small : count * (2 * (a * 2 ^ k - m * b) * 2 ^ 53) ≤ count * (b * m) :=
      Nat.mul_le_mul_left count below
    have step : b * (count * m) < b * (Binary.spacing 53 (count * m) * 2 ^ 53) :=
      Nat.mul_lt_mul_of_pos_left length some
    refine Nat.lt_of_mul_lt_mul_left (a := b) ?_
    generalize a * 2 ^ k - m * b = d at gap small
    generalize Binary.spacing 53 (count * m) = spacing at step ⊢
    linarith

end

theorem share_eq_div {p : Rat} (nonneg : 0 ≤ p.num) (count : Nat) :
    share count p = (count * p.num.toNat / p.den : Nat) := by
  have fraction : ((p.num.toNat : Nat) : Rat) / p.den = p := by
    rw [← Int.cast_natCast, Int.toNat_of_nonneg nonneg, Rat.num_div_den]
  conv_lhs => rw [share_exact, ← fraction, ← mul_div_assoc, ← Nat.cast_mul]
  exact Rat.floor_natCast_div_natCast _ _

/-- Of a count that there is room for, a double has the share of the fraction it stands for. -/
theorem StandsFor.doubleShare_eq {q : Float} {p : Rat} (stands : StandsFor q p) {count : Nat}
    (few : count < 2 ^ 45) : doubleShare count q = share count p := by
  have fine := stands.fine
  have places : 53 ≤ (-(Binary.parts q).2).toNat := by omega
  have lower := le_roundBits_of_below few p.den_pos stands.proper stands.below
  have upper :=
    roundBits_lt_of_above few p.den_pos stands.coarse stands.proper places stands.above
  rw [share_eq_div stands.nonneg, doubleShare_of_fraction stands.unsigned (by omega), Int.ofNat_inj]
  exact Nat.div_eq_of_lt_le lower upper

end Reckon.Scalar
