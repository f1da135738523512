import Mathlib.Order.Bounds.Basic
import Mathlib.Data.Nat.Find
import Reckon.Distribution.Sample
import Reckon.Proofs.Double.Order
import Reckon.Proofs.Double.Whole
import Reckon.Proofs.Random.Stream
import Reckon.Proofs.Scalar.Share

/-!
Poisson counts.

The loop multiplies draws until the product no longer exceeds a limit, so its count is the least
index at which that happens. A higher limit is met by every product that meets a lower one, so it is
met by as many draws or fewer.
-/

set_option autoImplicit false

namespace Reckon.Distribution

open Reckon.Random Double

def product (draws : List Float) : Float :=
  draws.foldl (· * ·) 1

/-- The loop started from a product ends after the draw with this index, counted from zero. -/
def EndsAt (limit start : Float) (draws : List Float) (index : Nat) : Prop :=
  IsLeast {j | ¬limit < (draws.take (j + 1)).foldl (· * ·) start} index

variable {limit start : Float} {s t : Source} {u : Float} {draws : List Float}

theorem EndsAt.take {index : Nat} (ends : EndsAt limit start draws index) :
    EndsAt limit start (draws.take (index + 1)) index := by
  obtain ⟨met, least⟩ := ends
  refine ⟨?_, fun j metAt => ?_⟩
  · rwa [Set.mem_ofPred_eq, List.take_take, Nat.min_self]
  · by_contra before
    rw [Set.mem_ofPred_eq, List.take_take, Nat.min_eq_left (by omega)] at metAt
    exact before (least metAt)

theorem exists_endsAt {j : Nat} (met : ¬limit < (draws.take (j + 1)).foldl (· * ·) start) :
    ∃ index ≤ j, EndsAt limit start draws index :=
  have some : ∃ j, ¬limit < (draws.take (j + 1)).foldl (· * ·) start := ⟨j, met⟩
  ⟨Nat.find some, Nat.find_min' some met, Nat.isLeast_find some⟩

/-! ## The loop -/

theorem belowLimit?_of_next (next : s.next? = some (u, t)) (limit start : Float) (count : Nat) :
    s.belowLimit? limit start count =
      if limit < start * u then t.belowLimit? limit (start * u) (count + 1)
      else some (count, t) := by
  rw [Source.belowLimit?, next]
  rfl

theorem endsAt_zero (met : ¬limit < start * u) : EndsAt limit start (u :: draws) 0 :=
  ⟨met, fun _ _ => Nat.zero_le _⟩

theorem endsAt_succ (exceeds : limit < start * u) {index : Nat} :
    EndsAt limit start (u :: draws) (index + 1) ↔ EndsAt limit (start * u) draws index := by
  constructor
  · rintro ⟨met, least⟩
    exact ⟨met, fun j metAt => Nat.le_of_succ_le_succ (least (a := j + 1) metAt)⟩
  · rintro ⟨met, least⟩
    refine ⟨met, fun j metAt => ?_⟩
    cases j with
    | zero => exact absurd exceeds metAt
    | succ j => exact Nat.succ_le_succ (least metAt)

theorem endsAt_of_belowLimit? {count total : Nat}
    (done : s.belowLimit? limit start count = some (total, t)) :
    ∃ index draws, total = count + index ∧ s.Yields draws t ∧ draws.length = index + 1 ∧
      EndsAt limit start draws index := by
  refine Source.belowLimit?.partial_correctness limit (fun start count s r => ∃ index draws,
    r.1 = count + index ∧ s.Yields draws r.2 ∧ draws.length = index + 1 ∧
      EndsAt limit start draws index) ?_ start count s (total, t) done
  intro loop ih start count s r found
  obtain ⟨⟨u, s'⟩, next, found⟩ := Option.bind_eq_some_iff.mp found
  dsimp only at found
  by_cases exceeds : limit < start * u
  · rw [if_pos exceeds] at found
    obtain ⟨index, draws, isTotal, yields, length, ends⟩ := ih _ _ _ _ found
    refine ⟨index + 1, u :: draws, by omega, .cons next yields, by simp [length], ?_⟩
    exact (endsAt_succ exceeds).mpr ends
  · rw [if_neg exceeds] at found
    cases found
    exact ⟨0, [u], rfl, .single next, rfl, endsAt_zero exceeds⟩

theorem belowLimit?_of_endsAt {count index : Nat} (yields : s.Yields draws t)
    (length : draws.length = index + 1) (ends : EndsAt limit start draws index) :
    s.belowLimit? limit start count = some (count + index, t) := by
  induction index generalizing start count s draws with
  | zero =>
    obtain ⟨u, rfl⟩ := List.length_eq_one_iff.mp length
    obtain ⟨s', next, rest⟩ := yields.uncons
    cases rest
    have met : ¬limit < start * u := ends.1
    rw [belowLimit?_of_next next, if_neg met, Nat.add_zero]
  | succ index ih =>
    obtain ⟨u, draws, rfl⟩ := List.exists_cons_of_length_eq_add_one length
    obtain ⟨s', next, rest⟩ := yields.uncons
    -- the loop would have ended at once at a product that meets the limit
    have exceeds : limit < start * u := by
      by_contra met
      have atOnce : index + 1 ≤ 0 := ends.2 (show 0 ∈ {j | _} from met)
      omega
    rw [belowLimit?_of_next next, if_pos exceeds,
      ih rest (Nat.succ.inj length) ((endsAt_succ exceeds).mp ends)]
    congr 2
    omega

/-- The loop counts the draws before the one at which it ends, and takes no more than that one. -/
theorem belowLimit?_eq_some_iff {count total : Nat} :
    s.belowLimit? limit start count = some (total, t) ↔
      ∃ index draws, total = count + index ∧ s.Yields draws t ∧ draws.length = index + 1 ∧
        EndsAt limit start draws index := by
  refine ⟨endsAt_of_belowLimit?, ?_⟩
  rintro ⟨index, draws, rfl, yields, length, ends⟩
  exact belowLimit?_of_endsAt yields length ends

theorem poissonCount?_eq_some_iff {exp : Float → Float} {rate : Float} {count : Nat} :
    poissonCount? exp rate s = some (count, t) ↔
      ∃ draws, s.Yields draws t ∧ draws.length = count + 1 ∧
        IsLeast {j | ¬exp (-rate) < product (draws.take (j + 1))} count := by
  rw [poissonCount?, belowLimit?_eq_some_iff]
  constructor
  · rintro ⟨index, draws, rfl, yields, length, ends⟩
    rw [Nat.zero_add]
    exact ⟨draws, yields, length, ends⟩
  · rintro ⟨draws, yields, length, ends⟩
    exact ⟨count, draws, (Nat.zero_add count).symm, yields, length, ends⟩

/-! ## Two rates -/

/-- The loop ends at the latest where its limit is met, and leaves the draws after that. -/
theorem exists_poissonCount? {exp : Float → Float} {rate : Float} {last : Source} {j : Nat}
    (yields : s.Yields draws last) (inside : j < draws.length)
    (met : ¬exp (-rate) < product (draws.take (j + 1))) :
    ∃ count t, poissonCount? exp rate s = some (count, t) ∧ count ≤ j ∧
      t.Yields (draws.drop (count + 1)) last := by
  obtain ⟨count, le, ends⟩ := exists_endsAt met
  obtain ⟨t, first, rest⟩ := yields.split (count + 1)
  refine ⟨count, t, poissonCount?_eq_some_iff.mpr ⟨_, first, ?_, ends.take⟩, le, rest⟩
  rw [List.length_take, Nat.min_eq_left (by omega)]

theorem poissonCount?_mono {exp : Float → Float} {rate rate' : Float} {count' : Nat} {t' : Source}
    (limits : exp (-rate') ≤ exp (-rate)) (done : poissonCount? exp rate' s = some (count', t')) :
    ∃ count t rest, poissonCount? exp rate s = some (count, t) ∧ count ≤ count' ∧
      t.Yields rest t' ∧ rest.length = count' - count := by
  obtain ⟨draws, yields, length, met, _⟩ := poissonCount?_eq_some_iff.mp done
  -- the lower rate has the higher limit, which the same product meets
  have metToo : ¬exp (-rate) < product (draws.take (count' + 1)) := fun exceeds =>
    met (lt_of_le_of_lt limits exceeds)
  obtain ⟨count, t, counted, le, rest⟩ := exists_poissonCount? yields (by omega) metToo
  refine ⟨count, t, _, counted, le, rest, ?_⟩
  rw [List.length_drop, length]
  omega

/-! ## The first draw -/

theorem one_mul_le_one (nonneg : 0 ≤ u) (below : u < 1) : 1 * u ≤ (1 : Float) := by
  have share := Scalar.isShare_of_lt nonneg below
  have finite := Scalar.finite_of_isShare share
  have one : (1 : Float) = Scalar.ofInt 1 := by decide +kernel
  have finiteOne : field (Scalar.ofInt 1) ≠ 2047 := by decide +kernel
  have size : magnitude (Scalar.ofInt 1) = 1 * 2 ^ unitBits := by
    rw [← natAbs_units, Scalar.units_one, Int.natAbs_natCast, Nat.one_mul]
  have rounded : Binary.roundBits 53 (1 * magnitude u) = magnitude u := by
    rw [Nat.one_mul, roundBits_magnitude]
  -- a product with one needs no rounding
  obtain ⟨finiteProduct, _, sizeIs⟩ := mul_rounded finiteOne finite size
    (rounded.symm ▸ magnitude_lt_overflow finite)
  have sizes : magnitude u < 2 ^ unitBits := by
    have bounds := Scalar.units_of_isShare share
    have same := magnitude_of_nonneg bounds.1
    omega
  have product : (units (Scalar.ofInt 1 * u)).natAbs = magnitude u := by
    rw [natAbs_units, sizeIs, rounded]
  rw [one, le_iff finiteProduct finiteOne, Scalar.units_one]
  omega

/-- A limit that is no number, or at least one, is met by the first draw. -/
theorem poissonCount?_of_first {exp : Float → Float} {rate : Float} (nonneg : 0 ≤ u)
    (below : u < 1) (limit : (exp (-rate)).isNaN = true ∨ 1 ≤ exp (-rate))
    (next : s.next? = some (u, t)) : poissonCount? exp rate s = some (0, t) := by
  have met : ¬exp (-rate) < 1 * u := by
    intro exceeds
    rcases limit with undefined | one_le
    · rw [(numbers_of_lt exceeds).1] at undefined
      cases undefined
    · exact not_lt_of_le (one_mul_le_one nonneg below) (lt_of_le_of_lt one_le exceeds)
  rw [poissonCount?, belowLimit?_of_next next, if_neg met]

/-! ## Counts -/

section

variable {exp : Float → Float} (monotone : ∀ x y, x ≤ y → exp x ≤ exp y)
  (one_le : ∀ rate, rate ≤ 0 → 1 ≤ exp (-rate))
  (undefined : ∀ x, x.isNaN = true → (exp x).isNaN = true)

include monotone one_le undefined

/-- A Poisson count is the least index at which the product of the draws no longer exceeds the
limit, and takes one draw more; there is one if and only if some product is that small. A rate that
is undefined or not positive takes one draw and counts nothing. A smaller rate counts no more and
takes no more draws from the same source. -/
theorem poissonCount?_spec {s : Source} (unit : s.InUnit) (rate : Float) :
    ((∃ count t, poissonCount? exp rate s = some (count, t)) ↔
      ∃ draws t, s.Yields draws t ∧ draws ≠ [] ∧ ¬exp (-rate) < product draws) ∧
    (∀ count t, poissonCount? exp rate s = some (count, t) ↔
      ∃ draws, s.Yields draws t ∧ draws.length = count + 1 ∧
        IsLeast {j | ¬exp (-rate) < product (draws.take (j + 1))} count) ∧
    (rate.isNaN = true ∨ rate ≤ 0 → ∀ u t, s.next? = some (u, t) →
      poissonCount? exp rate s = some (0, t)) ∧
    (∀ rate', rate ≤ rate' → ∀ count' t', poissonCount? exp rate' s = some (count', t') →
      ∃ count t rest, poissonCount? exp rate s = some (count, t) ∧ count ≤ count' ∧
        t.Yields rest t' ∧ rest.length = count' - count) := by
  refine ⟨⟨?_, ?_⟩, fun count t => poissonCount?_eq_some_iff, fun low u t next => ?_,
    fun rate' le count' t' done => ?_⟩
  · rintro ⟨count, t, done⟩
    obtain ⟨draws, yields, length, met, _⟩ := poissonCount?_eq_some_iff.mp done
    rw [Set.mem_ofPred_eq, ← length, List.take_length] at met
    exact ⟨draws, t, yields, List.ne_nil_of_length_eq_add_one length, met⟩
  · rintro ⟨draws, last, yields, some, met⟩
    have length := List.length_pos_of_ne_nil some
    have whole : draws.take (draws.length - 1 + 1) = draws := by
      rw [Nat.sub_add_cancel length, List.take_length]
    obtain ⟨count, t, done, _⟩ := exists_poissonCount? yields (j := draws.length - 1) (by omega)
      (whole.symm ▸ met)
    exact ⟨count, t, done⟩
  · obtain ⟨nonneg, below⟩ := unit [u] t (.single next) u List.mem_cons_self
    refine poissonCount?_of_first nonneg below ?_ next
    exact low.imp (fun nan => undefined _ (isNaN_neg nan)) (one_le rate)
  · exact poissonCount?_mono (monotone _ _ (neg_le_neg le)) done

end

/-- A monotone function with the values of the exponential at zero, at minus one and at minus
infinity. -/
def steppedExp (x : Float) : Float :=
  if x.isNaN then x
  else if 0 ≤ x then 1
  else if -1 ≤ x then 0.36787944117144233
  else 0

theorem steppedExp_mono (x y : Float) (le : x ≤ y) : steppedExp x ≤ steppedExp y := by
  obtain ⟨numberX, numberY⟩ := numbers_of_le le
  have passes (c : Float) (reached : c ≤ x) : c ≤ y := Double.le_trans reached le
  simp only [steppedExp, numberX, numberY, Bool.false_eq_true, if_false]
  split
  · next reached =>
    rw [if_pos (passes 0 reached)]
    decide +kernel
  · split
    · next reached =>
      rw [if_pos (passes (-1) reached)]
      split <;> decide +kernel
    · split
      · decide +kernel
      · split <;> decide +kernel

theorem one_le_steppedExp (rate : Float) (low : rate ≤ 0) : 1 ≤ steppedExp (-rate) := by
  have zero : (0 : Float) ≤ -0 := by decide +kernel
  have nonneg : 0 ≤ -rate := Double.le_trans zero (neg_le_neg low)
  rw [steppedExp, (numbers_of_le nonneg).2, if_neg (by decide), if_pos nonneg]
  decide +kernel

theorem isNaN_steppedExp (x : Float) (nan : x.isNaN = true) : (steppedExp x).isNaN = true := by
  rw [steppedExp, if_pos nan, nan]

/-- Draws whose product falls below `exp (-1)` with the third one and to zero with the last. -/
def dwindling : Source := .listed [0.5, 0.9, 0.5, 0.9, 0]

theorem poissonCount?_spec_dwindling :
    dwindling.InUnit ∧ (1 : Float) ≤ Binary.infinity ∧ Binary.nan.isNaN = true ∧
    poissonCount? steppedExp 1 dwindling = some (2, .listed [0.9, 0]) ∧
    poissonCount? steppedExp Binary.infinity dwindling = some (4, .listed []) ∧
    (∃ count t rest, poissonCount? steppedExp 1 dwindling = some (count, t) ∧ count ≤ 4 ∧
      t.Yields rest (.listed []) ∧ rest.length = 4 - count) ∧
    poissonCount? steppedExp Binary.nan dwindling = some (0, .listed [0.9, 0.5, 0.9, 0]) := by
  have unit : dwindling.InUnit := Source.inUnit_listed (by decide +kernel)
  have spec := poissonCount?_spec steppedExp_mono one_le_steppedExp isNaN_steppedExp unit
  have le : (1 : Float) ≤ Binary.infinity := by decide +kernel
  have nan : Binary.nan.isNaN = true := by decide +kernel
  have three : poissonCount? steppedExp 1 dwindling = some (2, .listed [0.9, 0]) := by
    rw [poissonCount?, dwindling, belowLimit?_of_next rfl, if_pos (by decide +kernel),
      belowLimit?_of_next rfl, if_pos (by decide +kernel), belowLimit?_of_next rfl,
      if_neg (by decide +kernel)]
  have five : poissonCount? steppedExp Binary.infinity dwindling = some (4, .listed []) := by
    rw [poissonCount?, dwindling, belowLimit?_of_next rfl, if_pos (by decide +kernel),
      belowLimit?_of_next rfl, if_pos (by decide +kernel), belowLimit?_of_next rfl,
      if_pos (by decide +kernel), belowLimit?_of_next rfl, if_pos (by decide +kernel),
      belowLimit?_of_next rfl, if_neg (by decide +kernel)]
  exact ⟨unit, le, nan, three, five, (spec 1).2.2.2 _ le _ _ five,
    (spec _).2.2.1 (.inl nan) _ _ rfl⟩

end Reckon.Distribution
