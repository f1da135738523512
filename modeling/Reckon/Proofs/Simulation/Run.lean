import Reckon.Proofs.Failing
import Reckon.Proofs.Formula.Parsed
import Reckon.Proofs.Simulation.Summary
import Reckon.Simulation.Run

/-!
Simulations keep the finite values of their trials and nothing else.

The loop is compared with a list: all trials are drawn first, one after the other, and the finite
values among theirs are what the cells of the buffer hold that were written to.
-/

set_option autoImplicit false

namespace Reckon

open Reckon.Random

/-! ## Cells -/

namespace Buffer

theorem getD_extend (stale : Nat → Float) (reached : Array Float) (i j : Nat) (x : Float) :
    (extend stale reached i x).getD j (stale j) =
      if j = i then x else reached.getD j (stale j) := by
  simp only [Array.getD_eq_getD_getElem?]
  unfold extend
  split
  · next inside =>
    rw [Array.getElem?_setIfInBounds]
    by_cases same : i = j
    · subst same
      simp [inside]
    · rw [if_neg same, if_neg (Ne.symm same)]
  · next beyond =>
    -- the cells between the reached ones and the written one keep what stood there
    have size : (reached ++ (Array.range' reached.size (i - reached.size)).map stale).size = i := by
      simp only [Array.size_append, Array.size_map, Array.size_range']
      omega
    rw [Array.getElem?_push, size]
    by_cases same : j = i
    · rw [if_pos same, if_pos same]
      rfl
    · rw [if_neg same, if_neg same, Array.getElem?_append]
      split
      · rfl
      · next outside =>
        have unreached : reached[j]? = none := Array.getElem?_eq_none (by omega)
        rw [unreached, Array.getElem?_map, Array.getElem?_range']
        split
        · next between =>
          have index : reached.size + (j - reached.size) = j := by omega
          simp [index]
        · rfl

theorem write_ok {b : Buffer} {i : Nat} (inside : i < b.length) (x : Float) :
    ∃ b', b.write i x = .ok b' ∧ b'.length = b.length ∧
      ∀ j, b'.read j = if j = i then x else b.read j :=
  ⟨_, if_pos inside, rfl, fun j => getD_extend b.stale b.reached i j x⟩

structure Holds (b : Buffer) (xs : List Float) : Prop where
  fits : xs.length ≤ b.length
  cells : ∀ (i : Nat) (inside : i < xs.length), b.read i = xs[i]

theorem Holds.nothing (b : Buffer) : b.Holds [] where
  fits := Nat.zero_le _
  cells _ inside := absurd inside (Nat.not_lt_zero _)

theorem Holds.write {b : Buffer} {xs : List Float} (holds : b.Holds xs)
    (room : xs.length < b.length) (x : Float) :
    ∃ b', b.write xs.length x = .ok b' ∧ b'.length = b.length ∧ b'.Holds (xs ++ [x]) := by
  obtain ⟨b', written, length, reads⟩ := write_ok room x
  refine ⟨b', written, length, ?_, fun i inside => ?_⟩
  · rw [List.length_append, List.length_singleton, length]
    exact room
  · rw [List.length_append, List.length_singleton] at inside
    rw [reads]
    split
    · next last =>
      subst last
      simp
    · next earlier =>
      have before : i < xs.length := by omega
      rw [holds.cells i before, List.getElem_append_left before]

theorem Holds.first {b : Buffer} {xs : List Float} (holds : b.Holds xs) :
    b.first xs.length = xs := by
  have count := holds.fits
  refine List.ext_getElem ?_ fun i _ inside => ?_
  · simp only [Buffer.first, List.length_map, List.length_range]
    omega
  · simp only [Buffer.first, List.getElem_map, List.getElem_range]
    exact holds.cells i inside

end Buffer

namespace Simulation

/-! ## Trials -/

/-- The numbers that the variables take in as many trials, and the source after the last draw. Each
trial goes on where the one before stopped. -/
def drawTrials? (bindings : List (String × Distribution)) :
    (count : Nat) → Source → Option (List (List (String × Float)) × Source)
  | 0, s => some ([], s)
  | count + 1, s => do
    let (values, s) ← drawValues? bindings s
    let (rows, s) ← drawTrials? bindings count s
    return (values :: rows, s)

/-- The value of the formula on some numbers, if there is one and it is finite. -/
def finiteValue? [Machine] (e : Expr) (values : List (String × Float)) : Option Float :=
  match e.eval (environment values) with
  | .ok x => if x.isFinite then some x else none
  | .error _ => none

theorem isFinite_of_finiteValue? [Machine] {e : Expr} {values : List (String × Float)} {x : Float}
    (value : finiteValue? e values = some x) : x.isFinite = true := by
  unfold finiteValue? at value
  split at value
  · split at value
    · next finite =>
      cases value
      exact finite
    · cases value
  · cases value

theorem environment_real {values : List (String × Float)} (name : String) (value : Value)
    (bound : environment values name = some value) : ∃ x, value = .real x := by
  obtain ⟨x, _, rfl⟩ := Option.map_eq_some_iff.mp bound
  exact ⟨x, rfl⟩

theorem trialValue_eq [Machine] {e : Expr} (plain : e.foreigns = [])
    (values : List (String × Float)) :
    trialValue e values = .ok (finiteValue? e values) := by
  rw [trialValue, finiteValue?, Expr.evaluate_eq_eval]
  cases value : e.eval (environment values) with
  | ok x => rfl
  | error failure =>
    obtain ⟨reference, rfl⟩ := Expr.undefined_of_eval environment_real plain value
    rfl

theorem drawTrials?_succ {bindings : List (String × Distribution)} {count : Nat} {s after : Source}
    {rows : List (List (String × Float))}
    (drawn : drawTrials? bindings (count + 1) s = some (rows, after)) :
    ∃ values middle later, drawValues? bindings s = some (values, middle) ∧
      drawTrials? bindings count middle = some (later, after) ∧ rows = values :: later := by
  simp only [drawTrials?, Option.bind_eq_bind, Option.bind_eq_some_iff] at drawn
  obtain ⟨⟨values, middle⟩, first, ⟨later, last⟩, others, same⟩ := drawn
  cases same
  exact ⟨values, middle, later, first, others, rfl⟩

theorem length_of_drawTrials? {bindings : List (String × Distribution)} {count : Nat}
    {s after : Source} {rows : List (List (String × Float))}
    (drawn : drawTrials? bindings count s = some (rows, after)) : rows.length = count := by
  induction count generalizing s rows with
  | zero =>
    cases drawn
    rfl
  | succ count ih =>
    obtain ⟨values, middle, later, _, others, rfl⟩ := drawTrials?_succ drawn
    rw [List.length_cons, ih others]

/-- A trial with numbers drawn adds its finite value, if it has one, to what the buffer holds. -/
theorem runTrials_succ [Machine] {e : Expr} (plain : e.foreigns = [])
    {bindings : List (String × Distribution)} {count : Nat} {s middle : Source}
    {values : List (String × Float)} (first : drawValues? bindings s = some (values, middle))
    {b : Buffer} {kept : List Float} (holds : b.Holds kept)
    (room : kept.length + (count + 1) ≤ b.length) :
    ∃ b', b'.Holds (kept ++ (finiteValue? e values).toList) ∧
      (kept ++ (finiteValue? e values).toList).length + count ≤ b'.length ∧
      runTrials e bindings (count + 1) kept.length b s =
        runTrials e bindings count (kept ++ (finiteValue? e values).toList).length b' middle := by
  simp only [runTrials, first, trialValue_eq plain]
  cases finiteValue? e values with
  | none =>
    rw [Option.toList_none, List.append_nil]
    exact ⟨b, holds, by omega, rfl⟩
  | some x =>
    obtain ⟨next, written, length, holdsNext⟩ := holds.write (by omega) x
    have counted : (kept ++ [x]).length = kept.length + 1 := by simp
    rw [Option.toList_some, counted]
    simp only [written]
    exact ⟨next, holdsNext, by omega, rfl⟩

/-- The loop puts the finite values of its trials after those that the buffer holds. -/
theorem runTrials_eq [Machine] {e : Expr} (plain : e.foreigns = [])
    {bindings : List (String × Distribution)}
    {count : Nat} {s after : Source} {rows : List (List (String × Float))}
    (drawn : drawTrials? bindings count s = some (rows, after)) {b : Buffer} {kept : List Float}
    (holds : b.Holds kept) (room : kept.length + count ≤ b.length) :
    ∃ b', runTrials e bindings count kept.length b s =
        .ok ((kept ++ rows.filterMap (finiteValue? e)).length, b', after) ∧
      b'.Holds (kept ++ rows.filterMap (finiteValue? e)) := by
  -- the buffer and the source move on together from trial to trial
  induction count generalizing s rows b kept with
  | zero =>
    cases drawn
    rw [List.filterMap_nil, List.append_nil]
    exact ⟨b, rfl, holds⟩
  | succ count ih =>
    obtain ⟨values, middle, later, first, others, rfl⟩ := drawTrials?_succ drawn
    obtain ⟨next, holdsNext, roomNext, step⟩ := runTrials_succ plain first holds room
    have split : (values :: later).filterMap (finiteValue? e) =
        (finiteValue? e values).toList ++ later.filterMap (finiteValue? e) := by
      rw [List.filterMap_cons]
      cases finiteValue? e values <;> rfl
    rw [step, split, ← List.append_assoc]
    exact ih others holdsNext roomNext

theorem runTrials_exhausted [Machine] {e : Expr} (plain : e.foreigns = [])
    {bindings : List (String × Distribution)} {count : Nat} {s : Source}
    (short : drawTrials? bindings count s = none) {b : Buffer} {kept : List Float}
    (holds : b.Holds kept) (room : kept.length + count ≤ b.length) :
    runTrials e bindings count kept.length b s = .error .drawsExhausted := by
  induction count generalizing s b kept with
  | zero => cases short
  | succ count ih =>
    cases first : drawValues? bindings s with
    | none => simp only [runTrials, first]
    | some drawn =>
      obtain ⟨values, middle⟩ := drawn
      have others : drawTrials? bindings count middle = none := by
        cases later : drawTrials? bindings count middle with
        | none => rfl
        | some rest => simp [drawTrials?, first, later] at short
      obtain ⟨next, holdsNext, roomNext, step⟩ := runTrials_succ plain first holds room
      rw [step]
      exact ih others holdsNext roomNext

theorem isFinite_of_trialValue [Machine] {e : Expr} {values : List (String × Float)} {x : Float}
    (value : trialValue e values = .ok (some x)) : x.isFinite = true := by
  unfold trialValue at value
  split at value
  · split at value
    · next finite =>
      cases value
      exact finite
    · cases value
  · cases value
  · cases value

/-- Whatever the loop evaluates, it keeps finite values only, and one for a trial at most. -/
theorem holds_of_runTrials [Machine] {e : Expr} {bindings : List (String × Distribution)}
    {count valid : Nat} {s after : Source} {b b' : Buffer} {kept : List Float}
    (ran : runTrials e bindings count kept.length b s = .ok (valid, b', after))
    (holds : b.Holds kept) (room : kept.length + count ≤ b.length)
    (finite : ∀ x ∈ kept, x.isFinite = true) :
    ∃ values, b'.Holds values ∧ values.length = valid ∧ valid ≤ kept.length + count ∧
      ∀ x ∈ values, x.isFinite = true := by
  induction count generalizing s b kept with
  | zero =>
    cases ran
    exact ⟨kept, holds, rfl, Nat.le_refl _, finite⟩
  | succ count ih =>
    simp only [runTrials] at ran
    split at ran
    · cases ran
    · next values middle drawn =>
      split at ran
      · next x value =>
        obtain ⟨next, written, length, holdsNext⟩ := holds.write (by omega) x
        have counted : (kept ++ [x]).length = kept.length + 1 := by simp
        simp only [written, ← counted] at ran
        have finiteNext : ∀ y ∈ kept ++ [x], y.isFinite = true :=
          List.forall_mem_append.mpr
            ⟨finite, List.forall_mem_singleton.mpr (isFinite_of_trialValue value)⟩
        obtain ⟨all, holdsAll, isValid, most, finiteAll⟩ :=
          ih ran holdsNext (by omega) finiteNext
        exact ⟨all, holdsAll, isValid, by omega, finiteAll⟩
      · obtain ⟨all, holdsAll, isValid, most, finiteAll⟩ := ih ran holds (by omega) finite
        exact ⟨all, holdsAll, isValid, by omega, finiteAll⟩
      · cases ran

/-! ## Order -/

theorem perm_ascending (xs : List Float) : (ascending xs).Perm xs :=
  List.mergeSort_perm xs _

theorem rank_trans (x y z : Float) (first : decide (Binary.rank x ≤ Binary.rank y) = true)
    (second : decide (Binary.rank y ≤ Binary.rank z) = true) :
    decide (Binary.rank x ≤ Binary.rank z) = true := by
  simp only [decide_eq_true_eq] at first second ⊢
  exact first.trans second

theorem rank_total (x y : Float) :
    (decide (Binary.rank x ≤ Binary.rank y) || decide (Binary.rank y ≤ Binary.rank x)) = true := by
  simpa using le_total (Binary.rank x) (Binary.rank y)

theorem pairwise_ascending (xs : List Float) :
    (ascending xs).Pairwise fun x y => Binary.rank x ≤ Binary.rank y :=
  (List.pairwise_mergeSort rank_trans rank_total xs).imp fun le => of_decide_eq_true le

theorem pairwise_rank_iff {xs : List Float} (finite : ∀ x ∈ xs, x.isFinite = true) :
    (xs.Pairwise fun x y => Binary.rank x ≤ Binary.rank y) ↔ xs.Pairwise fun x y => x ≤ y := by
  refine List.Pairwise.iff_of_mem fun {x y} memberX memberY => ?_
  have finiteX := (Double.isFinite_iff x).mp (finite x memberX)
  have finiteY := (Double.isFinite_iff y).mp (finite y memberY)
  rw [Double.rank_le_iff, Double.le_iff finiteX finiteY]

/-! ## Runs -/

/-- A number of trials: a whole number, or a finite one without its fraction. -/
inductive TrialCount : Value → Int → Prop where
  | whole (n : Int) : TrialCount (.int n) n
  | real {x : Float} : x.isFinite = true → TrialCount (.real x) (Binary.truncExact x)

theorem TrialCount.toWhole {trials : Value} {n : Int} (counts : TrialCount trials n) :
    trials.toWhole = .ok n := by
  cases counts with
  | whole => rfl
  | real finite =>
    obtain ⟨number, bounded⟩ := Double.not_special finite
    simp only [Value.toWhole, Scalar.truncated, number, bounded]
    rfl

/-- The summary of a number of trials holds the kept values in ascending order. -/
structure Reports (summary : Summary) (kept : List Float) (count : Nat) : Prop where
  samples : summary.samples.Perm kept
  ordered : summary.samples.Pairwise fun x y => x ≤ y
  trials : summary.trials = count
  balanced : summary.count + summary.discarded = count

/-- The values of some trials in ascending order are fit to be summed up. -/
theorem ascending_spec {kept : List Float} (nonempty : kept ≠ [])
    (finite : ∀ x ∈ kept, x.isFinite = true) :
    ascending kept ≠ [] ∧ ∀ x ∈ ascending kept, x.isFinite = true := by
  have perm := perm_ascending kept
  refine ⟨fun none => ?_, fun x member => finite x (perm.mem_iff.mp member)⟩
  rw [none] at perm
  exact nonempty perm.nil_eq.symm

theorem reports_ofSorted [Machine] {kept : List Float} {count : Nat} (nonempty : kept ≠ [])
    (finite : ∀ x ∈ kept, x.isFinite = true) (most : kept.length ≤ count)
    (counters : Machine.row true Histogram.standardBins = .ok ()) :
    ∃ summary, Summary.ofSorted (ascending kept) count = .ok summary ∧
      Reports summary kept count := by
  have perm := perm_ascending kept
  have sorted := pairwise_ascending kept
  obtain ⟨some, finiteSorted⟩ := ascending_spec nonempty finite
  obtain ⟨summary, summed, samples, trials⟩ :=
    Summary.ofSorted_ok count some counters sorted finiteSorted
  refine ⟨summary, summed, by rwa [samples], ?_, trials, ?_⟩
  · rw [samples]
    exact (pairwise_rank_iff finiteSorted).mp sorted
  · rw [Summary.discarded, Summary.count, samples, trials, perm.length_eq]
    omega

section

variable (stale : Nat → Float) (e : Expr) (bindings : List (String × Distribution))
  {trials : Value} {n : Int} (s : Source)

theorem simulateOver_eq [Machine] (counts : TrialCount trials n) :
    simulateOver stale e bindings trials s = runOver stale e bindings n s := by
  simp only [simulateOver, counts.toWhole]
  rfl

theorem runOver_refused [Machine] {refusal : Failure}
    (refused : Machine.row false n.toNat = .error refusal) :
    runOver stale e bindings n s = .fail refusal := by
  simp only [runOver, refused]
  rfl

theorem result_runOver [Machine] (room : Machine.row false n.toNat = .ok ()) :
    (runOver stale e bindings n s).result =
      (runTrials e bindings n.toNat 0 (.setAside stale n.toNat) s).bind fun (valid, b, after) =>
        (Summary.ofSorted (ascending (b.first valid)) n.toNat).map
          fun summary => (summary, after) := by
  simp only [runOver, Outcome.result_bind, Outcome.result_lift, room]
  change Except.bind (runTrials e bindings n.toNat 0 (.setAside stale n.toNat) s) _ = _
  congr 1
  funext ⟨valid, b, after⟩
  dsimp only
  cases Summary.ofSorted (ascending (b.first valid)) n.toNat <;> split <;> rfl

end

/-- With draws enough a simulation sums up the finite values of its trials. -/
theorem result_of_drawTrials? [Machine] (stale : Nat → Float) {e : Expr} (plain : e.foreigns = [])
    {bindings : List (String × Distribution)} {trials : Value} {n : Int}
    (counts : TrialCount trials n) (room : Machine.row false n.toNat = .ok ()) {s after : Source}
    {rows : List (List (String × Float))}
    (drawn : drawTrials? bindings n.toNat s = some (rows, after)) :
    (simulateOver stale e bindings trials s).result =
      (Summary.ofSorted (ascending (rows.filterMap (finiteValue? e))) n.toNat).map
        fun summary => (summary, after) := by
  have fits : ([] : List Float).length + n.toNat ≤ (Buffer.setAside stale n.toNat).length :=
    (Nat.zero_add _).le
  obtain ⟨b, loop, holds⟩ := runTrials_eq plain drawn (.nothing _) fits
  rw [List.nil_append, List.length_nil] at loop
  rw [List.nil_append] at holds
  rw [simulateOver_eq stale e bindings s counts, result_runOver stale e bindings s room, loop]
  simp only [Except.bind, holds.first]

/-- A summary that comes out is that of finite values, of no more than there was room for. -/
theorem kept_of_simulateOver [Machine] {stale : Nat → Float} {e : Expr}
    {bindings : List (String × Distribution)} {trials : Value} {s after : Source}
    {summary : Summary}
    (done : (simulateOver stale e bindings trials s).result = .ok (summary, after)) :
    ∃ (kept : List Float) (count : Nat), Machine.row false count = .ok () ∧ kept.length ≤ count ∧
      (∀ x ∈ kept, x.isFinite = true) ∧ Summary.ofSorted (ascending kept) count = .ok summary := by
  simp only [simulateOver, Outcome.result_bind, Outcome.result_lift] at done
  cases whole : trials.toWhole with
  | error failure =>
    rw [whole] at done
    cases done
  | ok n =>
    rw [whole] at done
    change (runOver stale e bindings n s).result = _ at done
    cases room : Machine.row false n.toNat with
    | error refusal =>
      rw [runOver_refused stale e bindings s room] at done
      cases done
    | ok =>
      rw [result_runOver stale e bindings s room] at done
      obtain ⟨⟨valid, b, source⟩, ran, done⟩ := bind_eq_ok.mp done
      have loop : ([] : List Float).length + n.toNat ≤ (Buffer.setAside stale n.toNat).length :=
        (Nat.zero_add _).le
      obtain ⟨kept, holds, rfl, most, finite⟩ :=
        holds_of_runTrials ran (.nothing _) loop (fun _ => List.not_mem_nil.elim)
      rw [List.length_nil, Nat.zero_add] at most
      dsimp only at done
      rw [holds.first] at done
      cases summed : Summary.ofSorted (ascending kept) n.toNat with
      | error failure =>
        rw [summed] at done
        cases done
      | ok summary =>
        rw [summed] at done
        cases done
        exact ⟨kept, n.toNat, room, most, finite, summed⟩

section

attribute [local instance] Machine.standard

end

theorem drawTrials?_nil (count : Nat) (s : Source) :
    drawTrials? [] count s = some (List.replicate count [], s) := by
  induction count with
  | zero => rfl
  | succ count ih =>
    simp only [drawTrials?, drawValues?, Option.bind_eq_bind, Option.bind_some, ih]
    rfl

section

attribute [local instance] Machine.standard

end

end Simulation

end Reckon
