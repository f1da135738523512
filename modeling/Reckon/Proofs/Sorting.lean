import Mathlib.Data.List.Basic

/-!
Sorting a list in two parts, and places in an ordered list.

A sorted list is determined by the sequence of those elements that the order does not tell apart.
Sorting and merging keep these sequences, so a list can be sorted by merging its sorted parts. The
index of a place in an ordered list bounds how many elements lie before it.
-/

set_option autoImplicit false

namespace Reckon.Sorting

variable {α : Type} {le : α → α → Bool}

def alike (le : α → α → Bool) (a b : α) : Bool :=
  le a b && le b a

/-- Sorted lists are the same if they have the same elements of each kind in the same order. -/
theorem eq_of_alike (refl : ∀ a, le a a = true) {xs ys : List α}
    (sortedLeft : xs.Pairwise fun a b => le a b = true)
    (sortedRight : ys.Pairwise fun a b => le a b = true)
    (same : ∀ a, xs.filter (alike le a) = ys.filter (alike le a)) : xs = ys := by
  have self (a : α) : alike le a a = true := by simp [alike, refl]
  induction xs generalizing ys with
  | nil =>
    cases ys with
    | nil => rfl
    | cons y ys => simpa [self] using same y
  | cons x xs ih =>
    cases ys with
    | nil => simpa [self] using same x
    | cons y ys =>
      obtain ⟨leastLeft, restLeft⟩ := List.pairwise_cons.mp sortedLeft
      obtain ⟨leastRight, restRight⟩ := List.pairwise_cons.mp sortedRight
      -- each of the two first elements is in the other list, so neither comes before the other
      have memRight : x ∈ y :: ys := by
        have member : x ∈ (x :: xs).filter (alike le x) := by simp [self]
        rw [same x] at member
        exact List.mem_of_mem_filter member
      have memLeft : y ∈ x :: xs := by
        have member : y ∈ (y :: ys).filter (alike le y) := by simp [self]
        rw [← same y] at member
        exact List.mem_of_mem_filter member
      have together : alike le x y = true := by
        rcases List.mem_cons.mp memRight with rfl | later
        · exact self x
        · rcases List.mem_cons.mp memLeft with rfl | later'
          · exact self y
          · simp [alike, leastRight x later, leastLeft y later']
      have first := same x
      rw [List.filter_cons_of_pos (self x), List.filter_cons_of_pos together] at first
      obtain rfl : x = y := (List.cons.inj first).1
      refine congrArg (List.cons x) (ih restLeft restRight fun a => ?_)
      have rest := same a
      by_cases isAlike : alike le a x = true
      · simpa [isAlike] using rest
      · simpa [isAlike] using rest

section

variable (trans : ∀ a b c, le a b = true → le b c = true → le a c = true)
  (total : ∀ a b, (le a b || le b a) = true)

include trans total

theorem filter_mergeSort (a : α) (xs : List α) :
    (xs.mergeSort le).filter (alike le a) = xs.filter (alike le a) := by
  have pairwise : (xs.filter (alike le a)).Pairwise fun b c => le b c = true := by
    refine List.pairwise_of_forall_mem_list fun b memB c memC => ?_
    have alikeB := List.of_mem_filter memB
    have alikeC := List.of_mem_filter memC
    simp only [alike, Bool.and_eq_true] at alikeB alikeC
    exact trans b a c alikeB.2 alikeC.1
  have within := List.sublist_mergeSort trans total pairwise List.filter_sublist
  replace within := within.filter (alike le a)
  rw [List.filter_filter] at within
  simp only [Bool.and_self] at within
  exact (within.eq_of_length ((List.mergeSort_perm xs le).filter _).length_eq.symm).symm

omit total in
theorem filter_merge (a : α) {xs ys : List α} (sorted : xs.Pairwise fun b c => le b c = true) :
    (xs.merge ys le).filter (alike le a) = xs.filter (alike le a) ++ ys.filter (alike le a) := by
  induction xs generalizing ys with
  | nil => simp
  | cons x xs ih =>
    obtain ⟨least, sortedRest⟩ := List.pairwise_cons.mp sorted
    induction ys with
    | nil => simp
    | cons y ys ihRight =>
      rw [List.cons_merge_cons]
      split
      · rw [List.filter_cons, List.filter_cons, ih sortedRest]
        split <;> rfl
      · next before =>
        rw [List.filter_cons, ihRight]
        by_cases alikeY : alike le a y = true
        · -- whatever is like `y` comes after `y` and so is not on the left, where all is above
          have none : (x :: xs).filter (alike le a) = [] := by
            refine List.filter_eq_nil_iff.mpr fun z member alikeZ => before ?_
            simp only [alike, Bool.and_eq_true] at alikeY alikeZ
            have up := trans z a y alikeZ.2 alikeY.1
            rcases List.mem_cons.mp member with rfl | later
            · exact up
            · exact trans x z y (least z later) up
          simp [none, alikeY]
        · simp [alikeY]

/-- Sorting turns the joining of lists into the merging of sorted ones. -/
theorem mergeSort_append (xs ys : List α) :
    (xs ++ ys).mergeSort le = (xs.mergeSort le).merge (ys.mergeSort le) le := by
  have refl (a : α) : le a a = true := by simpa using total a a
  have sortedLeft := List.pairwise_mergeSort trans total xs
  have sortedRight := List.pairwise_mergeSort trans total ys
  refine eq_of_alike refl (List.pairwise_mergeSort trans total _)
    (List.pairwise_merge trans total _ _ sortedLeft sortedRight) fun a => ?_
  rw [filter_mergeSort trans total, List.filter_append, filter_merge trans a sortedLeft,
    filter_mergeSort trans total, filter_mergeSort trans total]

end

/-! ## Places in an ordered list -/

section

variable {r : α → α → Prop} {xs : List α} (refl : ∀ x ∈ xs, r x x) (ordered : xs.Pairwise r)

include refl ordered

theorem getElem_mono {i j : Nat} (le : i ≤ j) (inside : j < xs.length) : r xs[i] xs[j] := by
  rcases Nat.lt_or_eq_of_le le with before | same
  · exact List.pairwise_iff_getElem.mp ordered i j _ inside before
  · subst same
    exact refl _ (List.getElem_mem inside)

/-- The first element comes before all others and the last one after them. -/
theorem bounds_of_mem {low high x : α} (isLow : xs.head? = some low)
    (isHigh : xs.getLast? = some high) (member : x ∈ xs) : r low x ∧ r x high := by
  obtain ⟨i, inside, rfl⟩ := List.mem_iff_getElem.mp member
  rw [List.head?_eq_getElem?] at isLow
  rw [List.getLast?_eq_getElem?] at isHigh
  obtain ⟨_, rfl⟩ := List.getElem?_eq_some_iff.mp isLow
  obtain ⟨last, rfl⟩ := List.getElem?_eq_some_iff.mp isHigh
  exact ⟨getElem_mono refl ordered (Nat.zero_le i) inside,
    getElem_mono refl ordered (by omega) last⟩

/-- No more elements lie strictly before a place than its index says. -/
theorem countP_le_index {i : Nat} (inside : i < xs.length) {before : α → Bool}
    (apart : ∀ y ∈ xs, r xs[i] y → before y = false) : xs.countP before ≤ i := by
  have rest : (xs.drop i).countP before = 0 := by
    rw [List.countP_eq_zero]
    intro y member
    obtain ⟨k, bound, rfl⟩ := List.mem_drop_iff_getElem.mp member
    rw [apart _ (List.getElem_mem _) (getElem_mono refl ordered (Nat.le_add_right i k) _)]
    decide
  calc xs.countP before
      = (xs.take i).countP before + (xs.drop i).countP before := by
        rw [← List.countP_append, List.take_append_drop]
    _ = (xs.take i).countP before := by rw [rest, Nat.add_zero]
    _ ≤ (xs.take i).length := List.countP_le_length
    _ ≤ i := List.length_take_le i xs

/-- More elements than the index of a place says do not come after it. -/
theorem index_lt_countP {i : Nat} (inside : i < xs.length) {upTo : α → Bool}
    (within : ∀ y ∈ xs, r y xs[i] → upTo y = true) : i < xs.countP upTo := by
  have all : (xs.take (i + 1)).countP upTo = (xs.take (i + 1)).length := by
    rw [List.countP_eq_length]
    intro y member
    obtain ⟨k, bound, rfl⟩ := List.mem_take_iff_getElem.mp member
    exact within _ (List.getElem_mem _) (getElem_mono refl ordered (by omega) inside)
  calc i < (xs.take (i + 1)).length := by rw [List.length_take]; omega
    _ = (xs.take (i + 1)).countP upTo := all.symm
    _ ≤ xs.countP upTo := (List.take_sublist _ xs).countP_le

end

end Reckon.Sorting
