import Mathlib.Order.Basic
import Reckon.Random.Source

/-!
Sources as streams of draws.

Which draws come next, and what is left after them, depends on their number alone.
-/

set_option autoImplicit false

namespace Reckon.Random.Source

/-- The source gives these draws and is the other one after them. -/
inductive Yields : Source → List Float → Source → Prop where
  | nil {s : Source} : Yields s [] s
  | cons {s t last : Source} {u : Float} {draws : List Float} :
      s.next? = some (u, t) → Yields t draws last → Yields s (u :: draws) last

/-- Every draw lies in the unit interval, which is open at its upper end. -/
def InUnit (s : Source) : Prop :=
  ∀ draws t, s.Yields draws t → ∀ u ∈ draws, 0 ≤ u ∧ u < 1

namespace Yields

variable {s t last : Source} {u : Float} {draws more : List Float}

theorem single (next : s.next? = some (u, t)) : s.Yields [u] t :=
  .cons next .nil

theorem uncons (yields : s.Yields (u :: draws) last) :
    ∃ t, s.next? = some (u, t) ∧ t.Yields draws last := by
  cases yields with
  | cons next rest => exact ⟨_, next, rest⟩

theorem split (yields : s.Yields draws last) (count : Nat) :
    ∃ t, s.Yields (draws.take count) t ∧ t.Yields (draws.drop count) last := by
  induction count generalizing s draws with
  | zero => exact ⟨s, .nil, yields⟩
  | succ count ih =>
    cases yields with
    | nil => exact ⟨_, .nil, .nil⟩
    | cons next rest =>
      obtain ⟨t, first, second⟩ := ih rest
      exact ⟨t, .cons next first, second⟩

end Yields

theorem yields_listed (draws : List Float) : (listed draws).Yields draws (listed []) := by
  induction draws with
  | nil => exact .nil
  | cons u draws ih => exact .cons rfl ih

theorem inUnit_listed {draws : List Float} (unit : ∀ u ∈ draws, 0 ≤ u ∧ u < 1) :
    (listed draws).InUnit := by
  intro front t yields u member
  induction draws generalizing front with
  | nil =>
    cases yields with
    | nil => cases member
    | cons next _ => cases next
  | cons first draws ih =>
    obtain ⟨unitFirst, unitRest⟩ := List.forall_mem_cons.mp unit
    cases yields with
    | nil => cases member
    | cons next rest =>
      cases next
      rcases List.mem_cons.mp member with rfl | later
      · exact unitFirst
      · exact ih unitRest _ rest later

/-! ## Draws that are not zero -/

def nonzeros (draws : List Float) : List Float :=
  draws.filter fun u => !(u == 0)

section

variable {s t last : Source} {u : Float} {draws more : List Float}

theorem nonzeros_append : nonzeros (draws ++ more) = nonzeros draws ++ nonzeros more :=
  List.filter_append draws more

theorem nonzeros_eq_nil_iff : nonzeros draws = [] ↔ ∀ z ∈ draws, (z == 0) = true := by
  simp [nonzeros, List.filter_eq_nil_iff]

theorem Yields.append (yields : s.Yields draws t) (further : t.Yields more last) :
    s.Yields (draws ++ more) last := by
  induction yields with
  | nil => exact further
  | cons next _ ih => exact .cons next (ih further)

theorem Yields.of_append (yields : s.Yields (draws ++ more) last) :
    ∃ t, s.Yields draws t ∧ t.Yields more last := by
  have cut := yields.split draws.length
  rwa [List.take_left, List.drop_left] at cut

theorem nonzero?_of_next (next : s.next? = some (u, t)) :
    s.nonzero? = if u == 0 then t.nonzero? else some (u, t) := by
  rw [nonzero?, next]
  rfl

theorem yields_of_nonzero? (done : s.nonzero? = some (u, t)) :
    ∃ zeros, s.Yields (zeros ++ [u]) t ∧ (∀ z ∈ zeros, (z == 0) = true) ∧ (u == 0) = false := by
  refine nonzero?.partial_correctness (fun s r => ∃ zeros, s.Yields (zeros ++ [r.1]) r.2 ∧
    (∀ z ∈ zeros, (z == 0) = true) ∧ (r.1 == 0) = false) ?_ s (u, t) done
  intro search ih s r found
  obtain ⟨⟨v, s'⟩, next, found⟩ := Option.bind_eq_some_iff.mp found
  dsimp only at found
  by_cases isZero : (v == 0) = true
  · rw [if_pos isZero] at found
    obtain ⟨zeros, yields, areZero, kept⟩ := ih s' r found
    exact ⟨v :: zeros, .cons next yields, List.forall_mem_cons.mpr ⟨isZero, areZero⟩, kept⟩
  · rw [if_neg isZero] at found
    cases found
    exact ⟨[], .single next, List.forall_mem_nil _, by simpa using isZero⟩

theorem nonzero?_of_yields {zeros : List Float} (yields : s.Yields (zeros ++ [u]) t)
    (areZero : ∀ z ∈ zeros, (z == 0) = true) (kept : (u == 0) = false) :
    s.nonzero? = some (u, t) := by
  induction zeros generalizing s with
  | nil =>
    obtain ⟨t', next, rest⟩ := yields.uncons
    cases rest
    rw [nonzero?_of_next next, if_neg (by simp [kept])]
  | cons z zeros ih =>
    obtain ⟨t', next, rest⟩ := yields.uncons
    obtain ⟨isZero, areZero⟩ := List.forall_mem_cons.mp areZero
    rw [nonzero?_of_next next, if_pos isZero, ih rest areZero]

/-- Zeros are passed over, and nothing is taken after the draw that is kept. -/
theorem nonzero?_eq_some_iff :
    s.nonzero? = some (u, t) ↔
      ∃ zeros, s.Yields (zeros ++ [u]) t ∧ (∀ z ∈ zeros, (z == 0) = true) ∧ (u == 0) = false :=
  ⟨yields_of_nonzero?, fun ⟨_, yields, areZero, kept⟩ => nonzero?_of_yields yields areZero kept⟩

theorem eq_false_of_mem_nonzeros (member : u ∈ nonzeros draws) : (u == 0) = false := by
  simpa using (List.mem_filter.mp member).2

/-- The first draw that is not zero is found in the stream, with the rest of the stream after it. -/
theorem exists_nonzero? {others : List Float} (yields : s.Yields draws last)
    (found : nonzeros draws = u :: others) :
    ∃ taken rest t, draws = taken ++ rest ∧ nonzeros taken = [u] ∧ taken.getLast? = some u ∧
      nonzeros rest = others ∧ s.Yields taken t ∧ t.Yields rest last ∧
      s.nonzero? = some (u, t) := by
  obtain ⟨zeros, rest, rfl, areZero, kept, areOthers⟩ := List.filter_eq_cons_iff.mp found
  simp only [Bool.not_eq_true', Bool.not_eq_false] at areZero kept
  rw [List.append_cons] at yields
  obtain ⟨t, first, second⟩ := yields.of_append
  refine ⟨zeros ++ [u], rest, t, List.append_cons .., ?_, by simp, areOthers, first, second,
    nonzero?_eq_some_iff.mpr ⟨zeros, first, areZero, kept⟩⟩
  rw [nonzeros_append, nonzeros_eq_nil_iff.mpr areZero]
  simp [nonzeros, kept]

end

end Reckon.Random.Source
