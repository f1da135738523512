import Reckon.Proofs.Command.Assignments
import Reckon.Proofs.Machine
import Reckon.Proofs.Report.Summary
import Reckon.Proofs.Simulation.Conclusion
import Reckon.Proofs.Simulation.Lasting

/-!
How the estimation of a formula ends.

Main statement: whatever the formula, the words for variables, the number of samples, the seed and
the output, the command writes its result or ends with a message, and the conditions on which it
does neither are named.
-/

set_option autoImplicit false

namespace Reckon

open Reckon.Random

namespace Estimate

/-- A calculation is a simulation from the source that the seed starts. -/
theorem result_calculate [Machine] {u : Estimate} (plain : u.model.expr.foreigns = []) :
    (calculate u).1.result = (Source.ofSeed u.seed).bind fun source =>
      (Simulation.outcomeOf u.model.expr u.model.bindings u.samples source).result := by
  rw [calculate, Change.current_bind, Change.fst_liftExcept_bind, Outcome.result_bind,
    Outcome.result_lift]
  congr 1
  funext source
  have simulated : ∃ after, u.model.simulate u.samples source = (fun summary => (summary, after)) <$>
      Simulation.outcomeOf u.model.expr u.model.bindings u.samples source := by
    have handed := Simulation.handOn_observe (fun _ => 0) u.model.expr u.model.bindings u.samples
      source
    rw [Simulation.observe_eq plain] at handed
    exact ⟨_, handed.symm⟩
  obtain ⟨after, simulated⟩ := simulated
  rw [Change.fst_lift_bind, Outcome.result_bind, simulated]
  rcases Simulation.outcomeOf u.model.expr u.model.bindings u.samples source
    with ⟨events, failure | summary⟩ <;> rfl

end Estimate

namespace Command

/-! ## The simulated estimate -/

def IsSeed (seed : Value) : Prop :=
  seed = .null ∨ ∃ n, seed = .int n

theorem ofSeed_failsFor {seed : Value} (isSeed : IsSeed seed) :
    FailsFor (· = .unsuitable .negativeSeed) (Source.ofSeed seed) := by
  rcases isSeed with rfl | ⟨n, rfl⟩
  · exact .ok _
  · change FailsFor _ ((Seed.ofInt n).bind _)
    rw [Seed.ofInt]
    split
    · exact .error rfl
    · exact .ok _

def described [Machine] (o : Options) : Outcome Model := do
  let model ← Model.ofFormula (.text o.subject)
  Change.from? model (o.vars.forM assignWord)

/-- The failures of an estimation: those of its words, and those of the simulation. -/
def Fails [Machine] (o : Options) (n : Int) (failure : Failure) : Prop :=
  WordFailure o.vars failure ∨
    ∃ model source, (described o).result = .ok model ∧ Source.ofSeed o.seed = .ok source ∧
      Simulation.Fails model.bindings n source failure

section

variable {o : Options} {n : Int}

theorem described_failsFor [Machine] [Machine.Lawful] (o : Options) :
    FailsFor (WordFailure o.vars) (described o).result := by
  apply Outcome.failsFor_bind
  · refine (Model.ofFormula_due _).mono fun failure due => ?_
    exact wordFailure_of_due (due.mono id (Nat.zero_le 1))
  · intro start _
    apply Change.failsFor_from?
    apply Change.failsFor_forM
    intro word member m
    exact assignWord_failsFor member m

theorem coherent_of_described [Machine] {model : Model}
    (made : (described o).result = .ok model) :
    model.Coherent := by
  rw [described, Outcome.result_bind] at made
  obtain ⟨start, started, made⟩ := bind_eq_ok.mp made
  refine Change.from?_keeps (Change.forM_keeps ?_ (Model.coherent_ofFormula started)) made
  intro word m
  exact coherent_assignWord word

/-- An estimation calculates an estimate of the model that the options describe. -/
theorem result_estimated_calculate [Machine] (o : Options) :
    (estimated o).result = (described o).result.bind fun model =>
      (Estimate.calculate { Estimate.ofModel model Estimate.usualName with
        samples := o.samples, seed := o.seed }).1.result := by
  rw [estimated, described, Outcome.result_bind, Outcome.result_bind]
  cases (Model.ofFormula (.text o.subject)).result with
  | error failure => rfl
  | ok start => exact Outcome.result_bind _ _

theorem result_estimated [Machine] (o : Options) :
    (estimated o).result = (described o).result.bind fun model =>
      (Source.ofSeed o.seed).bind fun source =>
        (Simulation.outcomeOf model.expr model.bindings o.samples source).result := by
  rw [result_estimated_calculate]
  cases made : (described o).result with
  | error failure => rfl
  | ok model =>
    -- no part of a parsed formula is foreign, so a trial is kept or discarded and never fails
    have plain := Formula.foreigns_of_parse (coherent_of_described made).parsed
    exact Estimate.result_calculate plain

theorem estimated_failsFor [Machine] [Machine.Lawful] (samples : o.samples = .int n)
    (isSeed : IsSeed o.seed) :
    FailsFor (Fails o n) (estimated o).result := by
  rw [result_estimated, samples]
  apply FailsFor.bind
  · exact (described_failsFor o).mono fun failure fails => .inl fails
  · intro model made
    apply FailsFor.bind
    · refine (ofSeed_failsFor isSeed).mono fun failure negative => ?_
      rw [negative]
      exact .inl trivial
    · intro source started
      refine Simulation.outcomeOf_failsFor.mono fun failure fails => ?_
      exact .inr ⟨model, source, made, started, fails⟩

theorem charted_of_estimated [Machine] {summary : Summary} (samples : o.samples = .int n)
    (done : (estimated o).result = .ok summary) : summary.Charted := by
  rw [result_estimated, samples] at done
  obtain ⟨model, _, done⟩ := bind_eq_ok.mp done
  obtain ⟨source, _, done⟩ := bind_eq_ok.mp done
  exact Simulation.charted_of_outcomeOf done

end

/-! ## The text -/

section

variable {o : Options} (writable : o.output ≠ .nothing)

include writable

theorem checkOutput_ok (failure : Failure) : o.checkOutput failure = .ok () :=
  if_neg writable

theorem exists_reportText {r : Report} (plain : r.Plain) :
    ∃ text, reportText o r = .ok text := by
  obtain ⟨markdown, isMarkdown⟩ := plain.exists_markdown
  have page : r.page .empty = .ok ("<style type=\"text/css\">" ++ Text.join "\n" Report.styleSheet
      ++ "</style>\n" ++ Markup.Html.ofText markdown) := by
    rw [Report.page, isMarkdown]
    rfl
  simp only [reportText, page, isMarkdown, checkOutput_ok writable]
  split <;> exact ⟨_, rfl⟩

/-- A summary that can be drawn is written, unless there is nothing to write to. -/
theorem exists_estimateText [Machine] {s : Summary} (charted : s.Charted) :
    ∃ text, estimateText o s = .ok text := by
  obtain ⟨full, isFull, plainFull⟩ := Summary.exists_fullReport charted
  obtain ⟨table, isTable, plainTable⟩ := s.exists_table
  unfold estimateText
  simp only [isFull, isTable, checkOutput_ok writable]
  split
  · exact ⟨_, rfl⟩
  · split
    · exact exists_reportText writable plainFull
    · exact exists_reportText writable plainTable

end

/-! ## The ending -/

inductive Ends [Machine] (o : Options) (n : Int) : Ending → Prop
  /-- The result is in the output. -/
  | written {summary : Summary} {text : String} :
      (estimated o).result = .ok summary → estimateText o summary = .ok text →
      Ends o n (.written text)
  /-- What is wrong is reported with the message of the failure. -/
  | refused {failure : Failure} {message : String} :
      (estimated o).result = .error failure → failure.message? = some message →
      Ends o n (.refused message)
  /-- A word gives a parameter with a name that assignments keep for themselves. -/
  | kept {word : String} :
      word ∈ o.vars → GivesKept word → Ends o n (.crashed (.unfit .reservedName))
  /-- The machine has no memory for so many samples, or for the counters of their histogram. -/
  | noMemory {count : Nat} {whole : Bool} :
      whole = false ∧ count = n.toNat ∨ whole = true ∧ count = Histogram.standardBins →
      Machine.row whole count = .error (.outOfMemory count whole) →
      Ends o n (.crashed (.outOfMemory count whole))
  /-- A variable has a rate whose exponential is negative, which no exponential is. -/
  | endless {model : Model} {binding : String × Distribution} :
      (described o).result = .ok model → binding ∈ model.bindings → binding.2.Endless →
      Ends o n (.crashed .drawsExhausted)
  /-- The command line leaves nothing to write to. -/
  | unwritable {summary : Summary} {failure : Failure} :
      (estimated o).result = .ok summary → o.output = .nothing →
      estimateText o summary = .error failure → Ends o n (.crashed failure)

section

variable {o : Options} {n : Int}

theorem ends_of_fails [Machine] {failure : Failure} (failed : (estimated o).result = .error failure)
    (fails : Fails o n failure) : Ends o n (onFailure true failure) := by
  rcases fails with word | ⟨model, source, made, started, simulation⟩
  · unfold WordFailure at word
    split at word
    · exact .refused failed rfl
    · exact .refused failed rfl
    · exact .refused failed rfl
    · obtain ⟨word, member, gives⟩ := word
      exact .kept member gives
    · exact word.elim
  · -- of the failures of a simulation only those for lack of something have no answer
    unfold Simulation.Fails at simulation
    split at simulation
    · exact .refused failed rfl
    · exact .refused failed rfl
    · exact .noMemory simulation.2 simulation.1
    · -- seeds start generators, which last unless a loop does not end
      by_cases ends : ∀ binding ∈ model.bindings, ¬binding.2.Endless
      · exact absurd
          (Simulation.lasts_of_generated ends (Source.generated_ofSeed started) n.toNat) simulation
      · push Not at ends
        obtain ⟨binding, member, isEndless⟩ := ends
        exact .endless made member isEndless
    · exact simulation.elim

theorem ends_of_summary [Machine] {summary : Summary} (charted : summary.Charted)
    (done : (estimated o).result = .ok summary) :
    ∃ e, (ending (.ofExcept (estimateText o summary))).result = .ok e ∧ Ends o n e := by
  cases written : estimateText o summary with
  | ok text => exact ⟨_, rfl, .written done written⟩
  | error failure =>
    -- every summary has a text, so only the output can be at fault
    have nothing : o.output = .nothing := by
      by_contra writable
      obtain ⟨text, isText⟩ := exists_estimateText writable charted
      rw [isText] at written
      cases written
    exact ⟨_, rfl, .unwritable done nothing written⟩

/-- Whatever the words for variables say, the command writes its result or ends with a message,
unless a word gives a parameter with a kept name, the machine has no memory for the numbers, or there
is nothing to write to. -/
theorem estimate_ends [Machine] [Machine.Lawful] (samples : o.samples = .int n)
    (isSeed : IsSeed o.seed) :
    ∃ ending, (estimate o).result = .ok ending ∧ Ends o n ending := by
  have fails := estimated_failsFor samples isSeed
  unfold estimate
  dsimp only
  split
  · next failure failed => exact ⟨_, rfl, ends_of_fails failed (fails failure failed)⟩
  · next summary done => exact ends_of_summary (charted_of_estimated samples done) done

end

/-- What is asked for with a formula of one variable and a word for it. -/
def single (word : String) : Options :=
  ⟨"x", [word], .standard, none, .int Simulation.standardTrials, .null, false, 0⟩

section

attribute [local instance] Machine.standard

theorem estimate_ends_single :
    (single "x; type=poisson; lam=3").samples = .int Simulation.standardTrials ∧
      IsSeed (single "x; type=poisson; lam=3").seed ∧
      ∃ ending, (estimate (single "x; type=poisson; lam=3")).result = .ok ending ∧
        Ends (single "x; type=poisson; lam=3") Simulation.standardTrials ending :=
  ⟨rfl, .inl rfl, estimate_ends rfl (.inl rfl)⟩

/-- A parameter that no distribution has is not always reported. -/
theorem estimate_keptName :
    (estimator.read ["x", "--vars", "x; name=1"]).outcome = .ok (single "x; name=1") ∧
      (estimate (single "x; name=1")).result = .ok (.crashed (.unfit .reservedName)) := by
  have parted : Text.fields ';' "x; name=1".toList = ["x".toList, " name=1".toList] := rfl
  have written : parameters 0 ([" name=1".toList].filter fun text =>
      !(Text.trimChars text).isEmpty) = .ok [(.text " name", .text "1")] := rfl
  have parameter : given [(.text " name", .text "1")] = [(.text "name", .text "1")] := rfl
  have refused (m : Model) : assignWord "x; name=1" m = (.fail (.unfit .reservedName), m) := by
    rw [assignWord_eq, parted]
    simp only [written, parameter]
    unfold Model.assignNamed
    rw [if_pos]
    · rfl
    · simp [Model.keptNames, Entries.without, Entries.get?, Entries.find?]
  have failed : (estimated (single "x; name=1")).result = .error (.unfit .reservedName) := by
    have made : (Model.ofFormula (.text "x")).result =
        .ok ⟨"f", "x", .var "x", [("x", .initial)]⟩ := rfl
    have none : (described (single "x; name=1")).result = .error (.unfit .reservedName) := by
      rw [described, Outcome.result_bind]
      change ((Model.ofFormula (.text "x")).result.bind fun model =>
        (Change.from? model (assignWord "x; name=1" >>= fun _ => pure ())).result) = _
      rw [made]
      change (Change.from? _ (Change.andThen (assignWord "x; name=1") _)).result = _
      rw [Change.from?, Change.andThen, refused]
      rfl
    rw [result_estimated, none]
    rfl
  refine ⟨rfl, ?_⟩
  simp only [estimate, failed]
  rfl

end

end Command

end Reckon
