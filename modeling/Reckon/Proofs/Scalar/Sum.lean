import Mathlib.Algebra.BigOperators.Group.List.Basic
import Reckon.Proofs.Scalar.Exact

/-!
Sums of rationals do not depend on the order in which they are taken.

Adding from left to right, in eight lanes or by halves all lead to the sum of the list.
-/

set_option autoImplicit false

namespace Reckon.Scalar

theorem foldl_add_exact (items : List Rat) (x : Rat) : items.foldl (· + ·) x = x + items.sum := by
  induction items generalizing x with
  | nil => simp
  | cons y items ih => rw [List.foldl_cons, ih, List.sum_cons, add_assoc]

theorem sumInOrder_exact (items : List Rat) : sumInOrder items = items.sum := by
  cases items with
  | nil => rfl
  | cons x rest => exact (foldl_add_exact rest x).trans List.sum_cons.symm

theorem sum_zipWith_add (lanes items : List Rat) (enough : lanes.length ≤ items.length) :
    (lanes.zipWith (· + ·) items).sum + (items.drop lanes.length).sum = lanes.sum + items.sum := by
  induction lanes generalizing items with
  | nil => simp
  | cons x lanes ih =>
    cases items with
    | nil => simp at enough
    | cons y items =>
      have rest := ih items (by simpa using enough)
      simp only [List.zipWith_cons_cons, List.length_cons, List.drop_succ_cons, List.sum_cons]
      linarith

theorem sumLanes_exact (blocks : Nat) (lanes items : List Rat) (eight : lanes.length = 8) :
    (sumLanes blocks lanes items).1.length = 8 ∧
      (sumLanes blocks lanes items).1.sum + (sumLanes blocks lanes items).2.sum =
        lanes.sum + items.sum := by
  induction blocks generalizing lanes items with
  | zero => exact ⟨eight, rfl⟩
  | succ blocks ih =>
    rw [sumLanes]
    split
    · exact ⟨eight, rfl⟩
    · next enough =>
      -- eight items go into the lanes, and the round goes on with the others
      have moved := sum_zipWith_add lanes items (by omega)
      have length : (lanes.zipWith (· + ·) items).length = 8 := by
        rw [List.length_zipWith]
        omega
      obtain ⟨lengthRest, sumRest⟩ := ih _ (items.drop 8) length
      rw [eight] at moved
      exact ⟨lengthRest, sumRest.trans moved⟩

theorem joinLanes_exact (lanes rest : List Rat) :
    joinLanes (lanes, rest) = lanes.sum + rest.sum := by
  unfold joinLanes
  split
  · next a b c d e f g h rest same =>
    cases same
    refine (foldl_add_exact rest _).trans ?_
    congr 1
    simp only [List.sum_cons, List.sum_nil]
    change a + b + (c + d) + (e + f + (g + h)) = _
    ring
  · next lanes rest same =>
    cases same
    rw [sumInOrder_exact, List.sum_append]

theorem sumInPairs_exact (items : List Rat) : sumInPairs items = items.sum := by
  fun_induction sumInPairs items with
  | case1 items count few => exact sumInOrder_exact items
  | case2 items count many short =>
    -- the first eight items are the lanes that the rounds begin with
    have eight : (items.take 8).length = 8 := by
      rw [List.length_take]
      omega
    obtain ⟨_, sum⟩ := sumLanes_exact count (items.take 8) (items.drop 8) eight
    refine (joinLanes_exact _ _).trans (sum.trans ?_)
    rw [← List.sum_append, List.take_append_drop]
  | case3 items count many long half ihFirst ihSecond =>
    change sumInPairs (items.take half) + sumInPairs (items.drop half) = _
    rw [ihFirst, ihSecond, ← List.sum_append, List.take_append_drop]

end Reckon.Scalar
