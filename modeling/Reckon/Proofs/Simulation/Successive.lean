import Reckon.Proofs.Simulation.Draws
import Reckon.Proofs.Sorting

/-!
Simulations one after the other.

A second simulation goes on with the source that a first one has left, so both together make the
trials of a single longer one. Main statement: the single one leaves the same source, its samples
are those of the two merged, and its discarded trials are those of the two added up.
-/

set_option autoImplicit false

namespace Reckon.Simulation

open Reckon.Random

/-! ## Enough draws -/

def Lasts (bindings : List (String × Distribution)) (count : Nat) (s : Source) : Prop :=
  (drawn bindings count s).length = count

section

variable {bindings : List (String × Distribution)} {count n₁ n₂ : Nat} {s : Source}

theorem lasts_succ_iff :
    Lasts bindings (count + 1) s ↔
      ∃ values middle, drawValues? bindings s = some (values, middle) ∧
        Lasts bindings count middle := by
  unfold Lasts
  cases first : drawValues? bindings s with
  | none => simp [drawn, first]
  | some next =>
    obtain ⟨values, middle⟩ := next
    simp [drawn_succ first]

theorem sourceAfter_append (s : Source) (first second : List Trial) :
    sourceAfter s (first ++ second) = sourceAfter (sourceAfter s first) second :=
  List.foldl_append

theorem drawn_add (lasts : Lasts bindings n₁ s) (n₂ : Nat) :
    drawn bindings (n₁ + n₂) s =
      drawn bindings n₁ s ++ drawn bindings n₂ (sourceAfter s (drawn bindings n₁ s)) := by
  -- on the first count, as each trial of it only moves the start of all the others
  induction n₁ generalizing s with
  | zero => simp [drawn, sourceAfter]
  | succ n₁ ih =>
    obtain ⟨values, middle, first, later⟩ := lasts_succ_iff.mp lasts
    rw [Nat.add_right_comm, drawn_succ first, drawn_succ first, ih later, List.cons_append]
    rfl

theorem Lasts.first (lasts : Lasts bindings (n₁ + n₂) s) : Lasts bindings n₁ s := by
  induction n₁ generalizing s with
  | zero => rfl
  | succ n₁ ih =>
    rw [Nat.add_right_comm] at lasts
    obtain ⟨values, middle, first, later⟩ := lasts_succ_iff.mp lasts
    exact lasts_succ_iff.mpr ⟨values, middle, first, ih later⟩

theorem Lasts.second (lasts : Lasts bindings (n₁ + n₂) s) :
    Lasts bindings n₂ (sourceAfter s (drawn bindings n₁ s)) := by
  have first := lasts.first
  unfold Lasts at *
  rw [drawn_add first, List.length_append, first] at lasts
  exact Nat.add_left_cancel lasts

theorem Lasts.drawTrials? (lasts : Lasts bindings count s) :
    drawTrials? bindings count s =
      some ((drawn bindings count s).map Trial.values, sourceAfter s (drawn bindings count s)) := by
  induction count generalizing s with
  | zero => rfl
  | succ count ih =>
    obtain ⟨values, middle, first, later⟩ := lasts_succ_iff.mp lasts
    simp only [Simulation.drawTrials?, first, Option.bind_eq_bind, Option.bind_some, ih later,
      drawn_succ first]
    rfl

theorem drawn_nil (count : Nat) (s : Source) : drawn [] count s = List.replicate count ⟨[], s⟩ := by
  induction count with
  | zero => rfl
  | succ count ih => simp only [drawn, drawValues?, ih, List.replicate_succ]

theorem lasts_nil (count : Nat) (s : Source) : Lasts [] count s := by
  rw [Lasts, drawn_nil, List.length_replicate]

end

/-! ## Values that are kept -/

def finiteValues [Machine] (e : Expr) (record : List Trial) : List Float :=
  record.filterMap fun trial => finiteValue? e trial.values

theorem finiteValues_append [Machine] (e : Expr) (first second : List Trial) :
    finiteValues e (first ++ second) = finiteValues e first ++ finiteValues e second :=
  List.filterMap_append

theorem length_finiteValues_le [Machine] (e : Expr) (record : List Trial) :
    (finiteValues e record).length ≤ record.length :=
  List.length_filterMap_le _ _

theorem isFinite_of_finiteValues [Machine] {e : Expr} {record : List Trial} {x : Float}
    (kept : x ∈ finiteValues e record) : x.isFinite = true := by
  obtain ⟨trial, _, value⟩ := List.mem_filterMap.mp kept
  exact isFinite_of_finiteValue? value

/-- The samples of a result and how many trials it leaves out. With nothing but discarded trials
there are no samples; any other failure has neither. -/
def tally? : Except Failure Summary → Option (List Float × Nat)
  | .ok summary => some (summary.samples, summary.discarded)
  | .error (.noValidSamples trials) => some ([], trials.toNat)
  | .error _ => none

def Observed.tally? (o : Observed) : Option (List Float × Nat) :=
  Simulation.tally? o.outcome.result

theorem tally?_ofSorted [Machine] {kept : List Float} (finite : ∀ x ∈ kept, x.isFinite = true)
    (counters : Machine.row true Histogram.standardBins = .ok ()) (count : Nat) :
    tally? (Summary.ofSorted (ascending kept) count) =
      some (ascending kept, count - kept.length) := by
  by_cases none : kept = []
  · subst none
    rw [ascending, List.mergeSort_nil]
    rfl
  · obtain ⟨some, finiteSorted⟩ := ascending_spec none finite
    obtain ⟨summary, summed, samples, total⟩ :=
      Summary.ofSorted_ok count some counters (pairwise_ascending kept) finiteSorted
    rw [summed]
    simp only [tally?, Summary.discarded, Summary.count, samples, total,
      (perm_ascending kept).length_eq]
    congr 2
    omega

theorem result_summing [Machine] (valid : Nat) (buffer : Buffer) (count : Nat) :
    (summing valid buffer count).result =
      Summary.ofSorted (ascending (buffer.first valid)) count := by
  unfold summing
  split <;> rfl

section

variable {stale : Nat → Float} {e : Expr} {bindings : List (String × Distribution)}
  {trials : Value} {n : Int} {s : Source}

theorem observe_refused [Machine] (counts : TrialCount trials n) {refusal : Failure}
    (refused : Machine.row false n.toNat = .error refusal) :
    observe stale e bindings trials s = ⟨[], .fail refusal, s⟩ := by
  simp only [observe, counts.toWhole, refused]

/-- With draws enough a simulation sums up the finite values of the trials that are drawn. -/
theorem result_observe [Machine] (plain : e.foreigns = []) (counts : TrialCount trials n)
    (room : Machine.row false n.toNat = .ok ()) (lasts : Lasts bindings n.toNat s) :
    (observe stale e bindings trials s).outcome.result =
      Summary.ofSorted (ascending (finiteValues e (drawn bindings n.toNat s))) n.toNat := by
  have empty : (Buffer.setAside stale n.toNat).Holds [] := .nothing _
  have fits : ([] : List Float).length + n.toNat ≤ (Buffer.setAside stale n.toNat).length :=
    (Nat.zero_add _).le
  obtain ⟨b, loop, holds⟩ := runTrials_eq plain lasts.drawTrials? empty fits
  rw [List.filterMap_map, List.nil_append, List.length_nil, ← snd_recordTrials] at loop
  rw [List.filterMap_map, List.nil_append] at holds
  have first := holds.first
  -- the recorded loop has the outcome of the plain one
  simp only [observe, counts.toWhole, room]
  split
  · next same =>
    rw [same] at loop
    cases loop
  · next same =>
    rw [same] at loop
    obtain ⟨rfl, rfl, rfl⟩ := loop
    rw [result_summing, first]
    rfl

/-- The simulation has drawn some trials and sums up the finite values of the formula in them, for
which it needs the counters of a histogram. -/
structure SumsUp [Machine] (e : Expr) (s : Source) (done : List Trial) (o : Observed) : Prop where
  record : o.record = done
  source : o.source = sourceAfter s done
  tally : Machine.row true Histogram.standardBins = .ok () → o.tally? =
    some (ascending (finiteValues e done), done.length - (finiteValues e done).length)

theorem sumsUp_observe [Machine] (plain : e.foreigns = []) (counts : TrialCount trials n)
    (room : Machine.row false n.toNat = .ok ()) (lasts : Lasts bindings n.toNat s) :
    SumsUp e s (drawn bindings n.toNat s) (observe stale e bindings trials s) := by
  have record : (observe stale e bindings trials s).record = drawn bindings n.toNat s := by
    simp only [record_observe plain, drawnWithin, counts.toWhole, room]
  refine ⟨record, by rw [source_observe, record], fun counters => ?_⟩
  rw [Observed.tally?, result_observe plain counts room lasts, lasts]
  exact tally?_ofSorted (fun _ => isFinite_of_finiteValues) counters n.toNat

end

/-! ## Two simulations -/

theorem ascending_append {xs ys : List Float} (finiteLeft : ∀ x ∈ xs, x.isFinite = true)
    (finiteRight : ∀ y ∈ ys, y.isFinite = true) :
    ascending (xs ++ ys) = (ascending xs).merge (ascending ys) := by
  have merged := Sorting.mergeSort_append rank_trans rank_total xs ys
  -- on finite numbers the order of the ranks is that of the doubles
  rw [ascending, merged, ← List.map_id (List.merge _ _ _), List.map_merge, List.map_id, List.map_id]
  · rfl
  · intro x memberX y memberY
    have isFiniteX := finiteLeft x ((perm_ascending xs).mem_iff.mp memberX)
    have isFiniteY := finiteRight y ((perm_ascending ys).mem_iff.mp memberY)
    rw [decide_eq_decide, Double.rank_le_iff]
    exact (Double.le_iff ((Double.isFinite_iff x).mp isFiniteX)
      ((Double.isFinite_iff y).mp isFiniteY)).symm

/-- The samples of one simulation are those of two others merged, and it discards as many trials as
both of them. -/
def Joins (first second both : Observed) : Prop :=
  ∃ samples₁ discarded₁ samples₂ discarded₂,
    first.tally? = some (samples₁, discarded₁) ∧ second.tally? = some (samples₂, discarded₂) ∧
    both.tally? = some (samples₁.merge samples₂, discarded₁ + discarded₂)

theorem SumsUp.joins [Machine] {e : Expr} {s : Source} {record₁ record₂ : List Trial}
    {first second both : Observed} (sumsFirst : SumsUp e s record₁ first)
    (sumsSecond : SumsUp e first.source record₂ second)
    (sumsBoth : SumsUp e s (record₁ ++ record₂) both) :
    both.source = second.source ∧ both.record = first.record ++ second.record ∧
      (Machine.row true Histogram.standardBins = .ok () → Joins first second both) := by
  refine ⟨?_, ?_, fun counters => ⟨_, _, _, _, sumsFirst.tally counters,
    sumsSecond.tally counters, (sumsBoth.tally counters).trans ?_⟩⟩
  · rw [sumsBoth.source, sumsSecond.source, sumsFirst.source, sourceAfter_append]
  · rw [sumsBoth.record, sumsFirst.record, sumsSecond.record]
  · have mostFirst := length_finiteValues_le e record₁
    have mostSecond := length_finiteValues_le e record₂
    rw [finiteValues_append, ascending_append (fun _ => isFinite_of_finiteValues)
      (fun _ => isFinite_of_finiteValues), List.length_append, List.length_append]
    congr 2
    omega

section

attribute [local instance] Machine.standard

end

end Reckon.Simulation
