import Reckon.Proofs.Simulation.Run

/-!
Which draws a simulation takes.

`observe` runs a simulation and keeps a record of its trials and the source that is left, also when
the simulation fails. Without the record it is the simulation itself. Main statement: the record and
the source that is left are the same for every formula.
-/

set_option autoImplicit false

namespace Reckon.Simulation

open Reckon.Random

/-! ## Recorded trials -/

/-- The numbers that the variables take in a trial, and the source after their draws. -/
structure Trial where
  values : List (String × Float)
  source : Source

def sourceAfter (s : Source) (record : List Trial) : Source :=
  record.foldl (fun _ trial => trial.source) s

/-- The loop of a simulation with a record of its trials. The record stays if the loop fails. -/
def recordTrials [Machine] (e : Expr) (bindings : List (String × Distribution)) :
    (count : Nat) → (valid : Nat) → Buffer → Source →
      List Trial × Except Failure (Nat × Buffer × Source)
  | 0, valid, buffer, s => ([], .ok (valid, buffer, s))
  | count + 1, valid, buffer, s =>
    match drawValues? bindings s with
    | none => ([], .error .drawsExhausted)
    | some (values, s) =>
      let (later, result) :=
        match trialValue e values with
        | .ok (some x) =>
          match buffer.write valid x with
          | .ok buffer => recordTrials e bindings count (valid + 1) buffer s
          | .error failure => ([], .error failure)
        | .ok none => recordTrials e bindings count valid buffer s
        | .error failure => ([], .error failure)
      (⟨values, s⟩ :: later, result)

theorem snd_recordTrials [Machine] (e : Expr) (bindings : List (String × Distribution))
    (count valid : Nat)
    (b : Buffer) (s : Source) :
    (recordTrials e bindings count valid b s).2 = runTrials e bindings count valid b s := by
  induction count generalizing valid b s with
  | zero => rfl
  | succ count ih =>
    cases first : drawValues? bindings s with
    | none => simp only [recordTrials, runTrials, first]
    | some next =>
      obtain ⟨values, middle⟩ := next
      cases value : trialValue e values with
      | error failure => simp only [recordTrials, runTrials, first, value]
      | ok value? =>
        cases value? with
        | none => simp only [recordTrials, runTrials, first, value, ih]
        | some x =>
          cases written : b.write valid x with
          | error failure => simp only [recordTrials, runTrials, first, value, written]
          | ok next => simp only [recordTrials, runTrials, first, value, written, ih]

/-- The trials that the source lasts for, as they are drawn without a formula. -/
def drawn (bindings : List (String × Distribution)) : (count : Nat) → Source → List Trial
  | 0, _ => []
  | count + 1, s =>
    match drawValues? bindings s with
    | none => []
    | some (values, s) => ⟨values, s⟩ :: drawn bindings count s

theorem drawn_succ {bindings : List (String × Distribution)} {s middle : Source}
    {values : List (String × Float)} (first : drawValues? bindings s = some (values, middle))
    (count : Nat) :
    drawn bindings (count + 1) s = ⟨values, middle⟩ :: drawn bindings count middle := by
  simp only [drawn, first]

theorem recordTrials_succ [Machine] {e : Expr} (plain : e.foreigns = [])
    {bindings : List (String × Distribution)} {s middle : Source} {values : List (String × Float)}
    (first : drawValues? bindings s = some (values, middle)) {count : Nat} {b : Buffer}
    {kept : List Float} (holds : b.Holds kept) (room : kept.length + (count + 1) ≤ b.length) :
    ∃ b' kept', b'.Holds kept' ∧ kept'.length + count ≤ b'.length ∧
      recordTrials e bindings (count + 1) kept.length b s =
        (⟨values, middle⟩ :: (recordTrials e bindings count kept'.length b' middle).1,
          (recordTrials e bindings count kept'.length b' middle).2) := by
  simp only [recordTrials, first, trialValue_eq plain]
  -- kept or discarded, the loop goes on with the source after the draws of the trial
  cases finiteValue? e values with
  | none => exact ⟨b, kept, holds, by omega, rfl⟩
  | some x =>
    obtain ⟨next, written, length, holdsNext⟩ := holds.write (by omega) x
    have counted : (kept ++ [x]).length = kept.length + 1 := by simp
    refine ⟨next, kept ++ [x], holdsNext, by omega, ?_⟩
    rw [counted]
    simp only [written]

theorem fst_recordTrials [Machine] {e : Expr} (plain : e.foreigns = [])
    (bindings : List (String × Distribution)) {count : Nat} (s : Source) {b : Buffer}
    {kept : List Float} (holds : b.Holds kept) (room : kept.length + count ≤ b.length) :
    (recordTrials e bindings count kept.length b s).1 = drawn bindings count s := by
  -- the buffer grows with the formula's values, but nothing of it reaches the next draw
  induction count generalizing s b kept with
  | zero => rfl
  | succ count ih =>
    cases first : drawValues? bindings s with
    | none => simp only [recordTrials, drawn, first]
    | some next =>
      obtain ⟨values, middle⟩ := next
      obtain ⟨b', kept', holds', room', step⟩ := recordTrials_succ plain first holds room
      rw [step, ih middle holds' room', drawn_succ first]

/-- A loop that comes to its end leaves the source after its last trial. -/
theorem source_of_recordTrials [Machine] {e : Expr} {bindings : List (String × Distribution)}
    {count valid last : Nat} {b b' : Buffer} {s after : Source}
    (done : (recordTrials e bindings count valid b s).2 = .ok (last, b', after)) :
    after = sourceAfter s (recordTrials e bindings count valid b s).1 := by
  induction count generalizing valid b s with
  | zero =>
    cases done
    rfl
  | succ count ih =>
    simp only [recordTrials] at done ⊢
    split at done
    · cases done
    · next values middle _ =>
      dsimp only at done ⊢
      split at done
      · next x _ =>
        split at done
        · exact ih done
        · cases done
      · exact ih done
      · cases done

/-! ## Observed simulations -/

structure Observed where
  record : List Trial
  outcome : Outcome Summary
  /-- The source after the last trial drawn in full, whether or not the simulation fails. -/
  source : Source

/-- What a simulation gives to the one that started it: the source only with a summary. -/
def Observed.handOn (o : Observed) : Outcome (Summary × Source) :=
  (fun summary => (summary, o.source)) <$> o.outcome

/-- The outcome of a simulation whose loop has written to the first cells of a buffer. -/
def summing [Machine] (valid : Nat) (buffer : Buffer) (count : Nat) : Outcome Summary := do
  if valid < count then Outcome.note (.discarded (count - valid) count)
  Summary.ofSorted (ascending (buffer.first valid)) count

def observe [Machine] (stale : Nat → Float) (e : Expr) (bindings : List (String × Distribution))
    (trials : Value) (s : Source) : Observed :=
  match trials.toWhole with
  | .error failure => ⟨[], .fail failure, s⟩
  | .ok n =>
    match Machine.row false n.toNat with
    | .error failure => ⟨[], .fail failure, s⟩
    | .ok () =>
      match recordTrials e bindings n.toNat 0 (.setAside stale n.toNat) s with
      | (record, .error failure) => ⟨record, .fail failure, sourceAfter s record⟩
      | (record, .ok (valid, buffer, after)) => ⟨record, summing valid buffer n.toNat, after⟩

theorem runOver_eq [Machine] (stale : Nat → Float) (e : Expr)
    (bindings : List (String × Distribution))
    {n : Int} (s : Source) (room : Machine.row false n.toNat = .ok ()) :
    runOver stale e bindings n s =
      match runTrials e bindings n.toNat 0 (.setAside stale n.toNat) s with
      | .error failure => .fail failure
      | .ok (valid, buffer, after) =>
        (fun summary => (summary, after)) <$> summing valid buffer n.toNat := by
  simp only [runOver, room]
  cases runTrials e bindings n.toNat 0 (.setAside stale n.toNat) s with
  | error failure => rfl
  | ok done =>
    obtain ⟨valid, buffer, after⟩ := done
    change (do
      if valid < n.toNat then Outcome.note (.discarded (n.toNat - valid) n.toNat)
      let summary ← Summary.ofSorted (ascending (buffer.first valid)) n.toNat
      return (summary, after) : Outcome (Summary × Source)) = _
    simp only [summing]
    cases Summary.ofSorted (ascending (buffer.first valid)) n.toNat <;> split <;> rfl

theorem handOn_observe [Machine] (stale : Nat → Float) (e : Expr)
    (bindings : List (String × Distribution))
    (trials : Value) (s : Source) :
    (observe stale e bindings trials s).handOn = simulateOver stale e bindings trials s := by
  unfold observe simulateOver
  cases trials.toWhole with
  | error failure => rfl
  | ok n =>
    change _ = runOver stale e bindings n s
    dsimp only
    split
    · next refusal refused =>
      rw [runOver_refused stale e bindings s refused]
      rfl
    · next room =>
      rw [runOver_eq stale e bindings s room, ← snd_recordTrials]
      split <;> next same => rw [same]; rfl

theorem source_observe [Machine] (stale : Nat → Float) (e : Expr)
    (bindings : List (String × Distribution))
    (trials : Value) (s : Source) :
    (observe stale e bindings trials s).source =
      sourceAfter s (observe stale e bindings trials s).record := by
  unfold observe
  split
  · rfl
  · split
    · rfl
    · split
      · rfl
      · next same =>
        have done := source_of_recordTrials (congrArg Prod.snd same)
        rwa [same] at done

/-! ## Any formula -/

/-- The trials that are drawn if there is room for as many values. -/
def drawnWithin [Machine] (bindings : List (String × Distribution)) (trials : Value) (s : Source) :
    List Trial :=
  match trials.toWhole with
  | .error _ => []
  | .ok n =>
    match Machine.row false n.toNat with
    | .error _ => []
    | .ok () => drawn bindings n.toNat s

theorem record_observe [Machine] {e : Expr} (plain : e.foreigns = []) (stale : Nat → Float)
    (bindings : List (String × Distribution)) (trials : Value) (s : Source) :
    (observe stale e bindings trials s).record = drawnWithin bindings trials s := by
  unfold observe drawnWithin
  split
  · rfl
  · next n _ =>
    have empty : (Buffer.setAside stale n.toNat).Holds [] := .nothing _
    have room : ([] : List Float).length + n.toNat ≤ (Buffer.setAside stale n.toNat).length :=
      (Nat.zero_add _).le
    have recorded := fst_recordTrials plain bindings s empty room
    cases Machine.row false n.toNat with
    | error refusal => rfl
    | ok =>
      dsimp only
      rw [← recorded, List.length_nil]
      split <;> next same => rw [same]

/-- Two formulas that are simulated with the same variables, as many trials and the same source
take the same numbers in every trial and leave the same source, whatever becomes of the trials and
whatever the outcome. -/
theorem observe_draws [Machine] {text₁ text₂ : String} {e₁ e₂ : Expr}
    (parsed₁ : Formula.parse text₁ = .ok e₁) (parsed₂ : Formula.parse text₂ = .ok e₂)
    (stale₁ stale₂ : Nat → Float) (bindings : List (String × Distribution)) (trials : Value)
    (s : Source) {first second : Observed} (isFirst : observe stale₁ e₁ bindings trials s = first)
    (isSecond : observe stale₂ e₂ bindings trials s = second) :
    first.handOn = simulateOver stale₁ e₁ bindings trials s ∧
    second.handOn = simulateOver stale₂ e₂ bindings trials s ∧
    first.record = second.record ∧ first.source = second.source := by
  have recordFirst : first.record = drawnWithin bindings trials s :=
    isFirst ▸ record_observe (Formula.foreigns_of_parse parsed₁) ..
  have recordSecond : second.record = drawnWithin bindings trials s :=
    isSecond ▸ record_observe (Formula.foreigns_of_parse parsed₂) ..
  have leftFirst : first.source = sourceAfter s first.record := isFirst ▸ source_observe ..
  have leftSecond : second.source = sourceAfter s second.record := isSecond ▸ source_observe ..
  refine ⟨isFirst ▸ handOn_observe .., isSecond ▸ handOn_observe .., ?_, ?_⟩
  · rw [recordFirst, recordSecond]
  · rw [leftFirst, leftSecond, recordFirst, recordSecond]

/-- A variable that takes two draws and one that takes as many as chance will have it. -/
def unevenDraws : List (String × Distribution) := [("x", .gaussian 0 1), ("k", .poisson 3)]

section

attribute [local instance] Machine.standard

/-- A formula without any value and one that always has one. -/
theorem observe_draws_quotient :
    ∃ e₁ e₂ first second, Formula.parse "x/0" = .ok e₁ ∧ Formula.parse "k" = .ok e₂ ∧
      observe (fun _ => 0) e₁ unevenDraws (.int 5) (.congruential 1) = first ∧
      observe (fun _ => 7) e₂ unevenDraws (.int 5) (.congruential 1) = second ∧
      first.handOn = simulateOver (fun _ => 0) e₁ unevenDraws (.int 5) (.congruential 1) ∧
      second.handOn = simulateOver (fun _ => 7) e₂ unevenDraws (.int 5) (.congruential 1) ∧
      first.record = second.record ∧ first.source = second.source := by
  have parsed₁ : Formula.parse "x/0" = .ok (.binary "/" (.var "x") (.num 0)) := rfl
  have parsed₂ : Formula.parse "k" = .ok (.var "k") := rfl
  exact ⟨_, _, _, _, parsed₁, parsed₂, rfl, rfl, observe_draws parsed₁ parsed₂ _ _ _ _ _ rfl rfl⟩

end

end Reckon.Simulation
