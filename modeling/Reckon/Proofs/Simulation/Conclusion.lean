import Reckon.Proofs.Failing
import Reckon.Proofs.Simulation.Successive

/-!
What a simulation comes to, without its memory.

The buffer is gone once the loop has ended, so all that is seen of a simulation is a function of the
trials that its source lasts for.
-/

set_option autoImplicit false

namespace Reckon.Simulation

open Reckon.Random

theorem lasts_of_drawTrials? {bindings : List (String × Distribution)} {count : Nat}
    {s after : Source} {rows : List (List (String × Float))}
    (all : drawTrials? bindings count s = some (rows, after)) : Lasts bindings count s := by
  induction count generalizing s rows with
  | zero => rfl
  | succ count ih =>
    obtain ⟨values, middle, later, first, others, _⟩ := drawTrials?_succ all
    exact lasts_succ_iff.mpr ⟨values, middle, first, ih others⟩

instance (bindings : List (String × Distribution)) (count : Nat) (s : Source) :
    Decidable (Lasts bindings count s) :=
  inferInstanceAs (Decidable ((drawn bindings count s).length = count))

/-- The outcome of as many trials of which these values are kept. -/
def concluded [Machine] (kept : List Float) (count : Nat) : Outcome Summary := do
  if kept.length < count then Outcome.note (.discarded (count - kept.length) count)
  Summary.ofSorted (ascending kept) count

theorem result_concluded [Machine] (kept : List Float) (count : Nat) :
    (concluded kept count).result = Summary.ofSorted (ascending kept) count := by
  unfold concluded
  split <;> rfl

def outcomeOf [Machine] (e : Expr) (bindings : List (String × Distribution)) (trials : Value)
    (s : Source) : Outcome Summary :=
  match trials.toWhole with
  | .error failure => .fail failure
  | .ok n =>
    match Machine.row false n.toNat with
    | .error failure => .fail failure
    | .ok () =>
      if Lasts bindings n.toNat s then
        concluded (finiteValues e (drawn bindings n.toNat s)) n.toNat
      else .fail .drawsExhausted

section

variable {e : Expr} (plain : e.foreigns = []) (stale : Nat → Float)
  (bindings : List (String × Distribution))

include plain

theorem runTrials_of_lasts [Machine] {count : Nat} {s : Source} (lasts : Lasts bindings count s) :
    ∃ valid b, summing valid b count = concluded (finiteValues e (drawn bindings count s)) count ∧
      runTrials e bindings count 0 (.setAside stale count) s =
        .ok (valid, b, sourceAfter s (drawn bindings count s)) := by
  have empty : (Buffer.setAside stale count).Holds [] := .nothing _
  have room : ([] : List Float).length + count ≤ (Buffer.setAside stale count).length :=
    (Nat.zero_add _).le
  obtain ⟨b, loop, holds⟩ := runTrials_eq plain lasts.drawTrials? empty room
  rw [List.filterMap_map, List.nil_append, List.length_nil] at loop
  rw [List.filterMap_map, List.nil_append] at holds
  refine ⟨_, b, ?_, loop⟩
  -- the cells that are summed up are those that the loop has written to
  rw [summing, holds.first]
  rfl

theorem runTrials_of_not_lasts [Machine] {count : Nat} {s : Source}
    (short : ¬Lasts bindings count s) :
    runTrials e bindings count 0 (.setAside stale count) s = .error .drawsExhausted := by
  have empty : (Buffer.setAside stale count).Holds [] := .nothing _
  have room : ([] : List Float).length + count ≤ (Buffer.setAside stale count).length :=
    (Nat.zero_add _).le
  have none : drawTrials? bindings count s = none := by
    by_contra some
    obtain ⟨rest, all⟩ := Option.ne_none_iff_exists'.mp some
    exact short (lasts_of_drawTrials? all)
  exact runTrials_exhausted plain none empty room

theorem outcome_observe [Machine] (trials : Value) (s : Source) :
    (observe stale e bindings trials s).outcome = outcomeOf e bindings trials s := by
  unfold observe outcomeOf
  cases trials.toWhole with
  | error failure => rfl
  | ok n =>
    dsimp only
    cases Machine.row false n.toNat with
    | error failure => rfl
    | ok _ =>
      dsimp only
      have recorded := snd_recordTrials e bindings n.toNat 0 (.setAside stale n.toNat) s
      by_cases lasts : Lasts bindings n.toNat s
      · obtain ⟨valid, b, sum, loop⟩ := runTrials_of_lasts plain stale bindings lasts
        rw [if_pos lasts, ← sum]
        rw [loop] at recorded
        split
        · next same =>
          rw [same] at recorded
          cases recorded
        · next same =>
          rw [same] at recorded
          cases recorded
          rfl
      · rw [if_neg lasts]
        rw [runTrials_of_not_lasts plain stale bindings lasts] at recorded
        split
        · next same =>
          rw [same] at recorded
          cases recorded
          rfl
        · next same =>
          rw [same] at recorded
          cases recorded

/-- Nothing that is seen of a simulation depends on what its memory held before. -/
theorem observe_eq [Machine] (trials : Value) (s : Source) :
    observe stale e bindings trials s =
      ⟨drawnWithin bindings trials s, outcomeOf e bindings trials s,
        sourceAfter s (drawnWithin bindings trials s)⟩ := by
  have record := record_observe plain stale bindings trials s
  have source := source_observe stale e bindings trials s
  rw [record] at source
  rw [← source, ← record, ← outcome_observe plain stale]

end

/-! ## Failures -/

/-- The failures of a simulation: with a message, or for lack of draws, or of memory for the values
of its trials or for the counters of their histogram. -/
def Fails [Machine] (bindings : List (String × Distribution)) (n : Int) (s : Source) :
    Failure → Prop
  | .noValidSamples _ | .unsuitable _ => True
  | .outOfMemory count whole =>
    Machine.row whole count = .error (.outOfMemory count whole) ∧
      (whole = false ∧ count = n.toNat ∨ whole = true ∧ count = Histogram.standardBins)
  | .drawsExhausted => ¬Lasts bindings n.toNat s
  | _ => False

theorem fails_of_row [Machine] [Machine.Lawful] {bindings : List (String × Distribution)} {n : Int}
    {s : Source} {whole : Bool} {count : Nat} {refusal : Failure}
    (asked : whole = false ∧ count = n.toNat ∨ whole = true ∧ count = Histogram.standardBins)
    (refused : Machine.row whole count = .error refusal) : Fails bindings n s refusal := by
  rcases Machine.Lawful.refusal_of_row refused with rfl | rfl | rfl
  · trivial
  · trivial
  · exact ⟨refused, asked⟩

section

variable {e : Expr} {bindings : List (String × Distribution)} {n : Int} {s : Source}

/-- The summary of kept values, unless there are none or no counters for them. -/
theorem result_concluded_cases [Machine] (rows : List Trial) (count : Nat) :
    (concluded (finiteValues e rows) count).result = .error (.noValidSamples count) ∨
      (∃ refusal, Machine.row true Histogram.standardBins = .error refusal ∧
        (concluded (finiteValues e rows) count).result = .error refusal) ∨
      ∃ summary, (concluded (finiteValues e rows) count).result = .ok summary ∧
        summary.Charted := by
  rw [result_concluded]
  have perm := perm_ascending (finiteValues e rows)
  -- only finite values are kept, so apart from counters a summary lacks nothing but values
  by_cases none : ascending (finiteValues e rows) = []
  · rw [none]
    exact .inl rfl
  · refine .inr ?_
    cases counters : Machine.row true Histogram.standardBins with
    | error refusal => exact .inl ⟨refusal, rfl, Summary.ofSorted_refused count none counters⟩
    | ok _ =>
      have finite (x : Float) (member : x ∈ ascending (finiteValues e rows)) : x.isFinite = true :=
        isFinite_of_finiteValues (perm.mem_iff.mp member)
      obtain ⟨summary, done, _, _, charted⟩ :=
        Summary.ofSorted_charted count none counters (pairwise_ascending _) finite
      exact .inr ⟨summary, done, charted⟩

theorem outcomeOf_failsFor [Machine] [Machine.Lawful] :
    FailsFor (Fails bindings n s) (outcomeOf e bindings (.int n) s).result := by
  simp only [outcomeOf, Value.toWhole]
  split
  · next failure refused => exact .error (fails_of_row (.inl ⟨rfl, rfl⟩) refused)
  · split
    · obtain none | ⟨refusal, refused, failed⟩ | ⟨summary, done, _⟩ :=
        result_concluded_cases (e := e) (drawn bindings n.toNat s) n.toNat
      · rw [none]
        exact .error trivial
      · rw [failed]
        exact .error (fails_of_row (.inr ⟨rfl, rfl⟩) refused)
      · rw [done]
        exact .ok summary
    · next short => exact .error short

theorem charted_of_outcomeOf [Machine] {summary : Summary}
    (done : (outcomeOf e bindings (.int n) s).result = .ok summary) : summary.Charted := by
  simp only [outcomeOf, Value.toWhole] at done
  split at done
  · cases done
  · split at done
    · obtain none | ⟨refusal, _, failed⟩ | ⟨_, found, charted⟩ :=
        result_concluded_cases (e := e) (drawn bindings n.toNat s) n.toNat
      · rw [none] at done
        cases done
      · rw [failed] at done
        cases done
      · rw [found] at done
        cases done
        exact charted
    · cases done

end

end Reckon.Simulation
