import Reckon.Machine
import Reckon.Proofs.Double.Nearest

/-!
What the standard machine grants and refuses.
-/

set_option autoImplicit false

namespace Reckon.Machine.Standard

theorem limit_eq : limit = 2 ^ 40 := rfl

theorem row_of_lt {count : Nat} (room : count < limit) (whole : Bool) :
    row whole count = .ok () := by
  have limitIs := limit_eq
  rw [row, Binary.twoPow_eq, Binary.twoPow_eq, if_neg (by omega), if_neg (by omega),
    if_neg (by omega)]

theorem row_of_ge {count : Nat} (beyond : 2 ^ 63 ≤ count) (whole : Bool) :
    row whole count = .error (.unsuitable .beyondCount) := by
  rw [row, Binary.twoPow_eq, if_pos beyond]

theorem points_of_round {count : Nat} (double : (Binary.ofInt? count).isSome = true)
    (room : Binary.roundBits 53 count < limit) : points count = .ok () := by
  have limitIs := limit_eq
  rw [points, Option.isNone_eq_false_iff.mpr double]
  rw [Binary.twoPow_eq, if_neg (by decide), if_neg (by omega), if_neg (by omega), row_of_lt room]

/-- As many points as a counter has no place for: the last one is missing. -/
theorem points_lastMissing {count : Nat} (double : (Binary.ofInt? count).isSome = true)
    (last : Binary.roundBits 53 count = 2 ^ 63) : points count = .error .outOfRange := by
  rw [points, Option.isNone_eq_false_iff.mpr double, last]
  rw [Binary.twoPow_eq, if_neg (by decide), if_neg (by omega), if_pos rfl]

attribute [local instance] standard in
/-- The standard machine is one that a library for rows of numbers can run on. -/
instance lawful : Lawful where
  valueDepth_pos := by decide
  lt_of_row {whole count} granted := by
    change row whole count = .ok () at granted
    by_contra large
    rw [Binary.twoPow_eq] at large
    rw [row, Binary.twoPow_eq, Binary.twoPow_eq] at granted
    split at granted
    · cases granted
    · rw [limit_eq] at granted
      split at granted
      · cases granted
      · rw [if_pos (by omega)] at granted
        cases granted
  refusal_of_row {whole count refusal} refused := by
    change row whole count = .error refusal at refused
    rw [row] at refused
    split at refused
    · cases refused
      exact .inl rfl
    · split at refused
      · cases refused
        exact .inr (.inl rfl)
      · split at refused
        · cases refused
          exact .inr (.inr rfl)
        · cases refused

end Reckon.Machine.Standard
