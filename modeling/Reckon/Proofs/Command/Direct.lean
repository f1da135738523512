import Reckon.Command.Session
import Reckon.Proofs.Command.Estimate
import Reckon.Proofs.Command.Reading
import Reckon.Proofs.Command.Words

/-!
The estimate of a command line and the estimate made directly.

Main statement: with words that spell distributions, in any order and spacing, the command shows or
reports what comes of an estimate whose model was assigned these distributions, with the same seed
and number of samples.
-/

set_option autoImplicit false

namespace Reckon.Command

/-! ## The direct estimate -/

/-- The estimate of a formula whose variables are assigned distributions, calculated. -/
def direct [Machine] (formula : String) (chosen : Bindings) (samples seed : Value) :
    Outcome Summary := do
  let model ← Model.ofFormula (.text formula)
  let model ← Change.from? model
    (chosen.forM fun (name, d) => Model.assign name (.distribution d))
  (Estimate.calculate { Estimate.ofModel model Estimate.usualName with samples, seed }).1

inductive View where
  /-- The main figures in one line. -/
  | short
  | summary
  /-- Everything, with a histogram. -/
  | verbose

def View.text [Machine] (view : View) (s : Summary) : Except Failure String :=
  match view with
  | short => .ok (shortText s)
  | summary => do
    let report ← s.table .empty
    let text ← report.markdown .empty
    return text ++ "\n"
  | verbose => do
    let report ← s.fullReport .empty
    let text ← report.markdown .empty
    return text ++ "\n"

def Options.view (o : Options) : View :=
  if o.short then .short else if 0 < o.verbose then .verbose else .summary

/-- A command ends with the text of a result, or as it does for the failure to get one. -/
inductive Shows [Machine] (result : Except Failure Summary) (view : View) : Ending → Prop
  | written {summary : Summary} {text : String} :
      result = .ok summary → view.text summary = .ok text → Shows result view (.written text)
  | failed {failure : Failure} :
      result = .error failure → Shows result view (onFailure true failure)

/-! ## Options for text -/

/-- The result goes to standard output as text, and the number of samples is a whole one. -/
structure Options.Plain (o : Options) : Prop where
  output : o.output = .standard
  format : o.format = none
  samples : ∃ n, o.samples = .int n

theorem plain_asked (vars : List String) (settings : List Setting) :
    (asked vars settings).Plain ∧ (asked vars settings).vars = vars := by
  have each {o : Options} (plain : o.Plain) (settings : List Setting) :
      (settings.foldl Setting.apply o).Plain ∧ (settings.foldl Setting.apply o).vars = o.vars := by
    induction settings generalizing o with
    | nil => exact ⟨plain, rfl⟩
    | cons setting settings ih =>
      cases setting with
      | samples attached text n => exact ih { plain with samples := ⟨n, rfl⟩ }
      | seed attached text n => exact ih { plain with }
      | short => exact ih { plain with }
      | verbose => exact ih { plain with }
  exact @each { Progress.initial.options with vars } ⟨rfl, rfl, _, rfl⟩ settings

section

variable {o : Options} (plain : o.Plain)

include plain

theorem estimateText_eq [Machine] (s : Summary) : estimateText o s = o.view.text s := by
  have writable : o.output ≠ .nothing := by
    rw [plain.output]
    decide
  have format : o.outputFormat = none := by
    rw [Options.outputFormat, plain.output]
    exact plain.format
  have page : ¬(none : Option String) = some "html" := nofun
  unfold estimateText reportText Options.view
  simp only [checkOutput_ok writable, format, page]
  split
  · rfl
  · split <;> rfl

theorem estimate_shows [Machine] :
    ∃ ending, (estimate o).result = .ok ending ∧ Shows (estimated o).result o.view ending := by
  obtain ⟨n, samples⟩ := plain.samples
  unfold estimate
  dsimp only
  split
  · next failure failed => exact ⟨_, rfl, .failed failed⟩
  · next summary done =>
    have writable : o.output ≠ .nothing := by
      rw [plain.output]
      decide
    -- a result can always be shown, so the command does not fail this late
    obtain ⟨text, written⟩ := exists_estimateText writable (charted_of_estimated samples done)
    refine ⟨.written text, by rw [written]; rfl, .written done ?_⟩
    rwa [← estimateText_eq plain]

end

/-! ## The same model -/

theorem leads_forM_assign [Machine] {chosen : Bindings} {m : Model}
    (bound : ∀ name ∈ chosen.names, name ∈ m.bindings.names) :
    (chosen.forM fun (name, d) => Model.assign name (.distribution d)).Leads m ()
      { m with bindings := m.bindings.setAll chosen } := by
  refine Model.leads_setAll (List.forall₂_same.mpr fun entry _ m isBound => ?_) bound
  obtain ⟨current, found⟩ := Bindings.exists_find? isBound
  exact Model.leads_assign found rfl

/-- Words that spell distributions of different variables, in any order. -/
def SpellAll (words : List String) (chosen : Bindings) : Prop :=
  ∃ other : Bindings, List.Perm other chosen ∧ List.Forall₂ Spells words other

/-- A word that spells the distribution of a variable does not begin with a dash. -/
theorem classify_of_spells {word : String} {entry : String × Distribution}
    (spells : Spells word entry) (identifier : Formula.Identifier entry.1.toList) :
    estimator.classify word = .ok .argument := by
  obtain ⟨name, pieces, letters, isName, _⟩ := spells
  rw [← isName] at identifier
  apply classify_of_head?
  rintro c isFirst rfl
  have inName : '-' ∈ name := by
    cases name with
    | nil => cases identifier
    | cons first rest =>
      rw [letters] at isFirst
      cases isFirst
      exact List.mem_cons_self
  exact Text.not_mem_of_not_mem_trimChars (by decide) (identifier.not_mem (by decide)) inName

theorem areArguments_of_spell {words : List String} {chosen : Bindings}
    (spell : List.Forall₂ Spells words chosen)
    (identifiers : ∀ name ∈ chosen.names, Formula.Identifier name.toList) :
    ∀ word ∈ words, estimator.classify word = .ok .argument := by
  induction spell with
  | nil => exact List.forall_mem_nil _
  | cons first _ ih =>
    obtain ⟨identifier, identifiersRest⟩ := List.forall_mem_cons.mp identifiers
    exact List.forall_mem_cons.mpr ⟨classify_of_spells first identifier, ih identifiersRest⟩

section

variable [Machine] {formula : String} {start : Model} {chosen : Bindings}
  (accepted : (Model.ofFormula (.text formula)).result = .ok start)
  (listed : ∀ name ∈ chosen.names, name ∈ start.bindings.names)

include accepted

theorem identifier_of_mem {name : String} (member : name ∈ start.bindings.names) :
    Formula.Identifier name.toList := by
  have coherent := Model.coherent_ofFormula accepted
  rw [coherent.bound] at member
  exact Formula.identifier_of_parse coherent.parsed name member

include listed

theorem result_direct (samples seed : Value) :
    (direct formula chosen samples seed).result = (Estimate.calculate
      { Estimate.ofModel { start with bindings := start.bindings.setAll chosen }
          Estimate.usualName with samples, seed }).1.result := by
  rw [direct, Outcome.result_bind, accepted]
  change (Change.from? start _ >>= _).result = _
  rw [Outcome.result_bind, (leads_forM_assign listed).result_from?]
  rfl

variable {words : List String} (spelled : SpellAll words chosen)

include spelled

theorem result_described (distinct : chosen.names.Nodup) {o : Options}
    (subject : o.subject = formula) (vars : o.vars = words) :
    (described o).result =
      .ok { start with bindings := start.bindings.setAll chosen.inDoubles } := by
  obtain ⟨other, perm, spell⟩ := spelled
  have names : other.names.Perm chosen.names := perm.map Prod.fst
  have bound : ∀ name ∈ other.names, name ∈ start.bindings.names := fun name member =>
    listed name (names.mem_iff.mp member)
  have unmarked : ∀ name ∈ other.names, ';' ∉ name.toList := fun name member =>
    (identifier_of_mem accepted (bound name member)).not_mem (by decide)
  -- the variables are set in another order, but they keep their places
  have same : start.bindings.setAll other.inDoubles = start.bindings.setAll chosen.inDoubles :=
    Bindings.setAll_perm (Model.coherent_ofFormula accepted).nodup_names
      (by rwa [Bindings.names_inDoubles])
      (by rwa [Bindings.names_inDoubles, names.nodup_iff]) (perm.map _)
  rw [described, Outcome.result_bind, subject, accepted, vars]
  change (Change.from? start (words.forM assignWord)).result = _
  rw [(leads_forM_assignWord spell unmarked bound).result_from?, same]

theorem areArguments_of_spelled : ∀ word ∈ words, estimator.classify word = .ok .argument := by
  obtain ⟨other, perm, spell⟩ := spelled
  have names : other.names.Perm chosen.names := perm.map Prod.fst
  exact areArguments_of_spell spell fun name member =>
    identifier_of_mem accepted (listed name (names.mem_iff.mp member))

end

/-- A model and the one with doubles for its parameters are estimated alike. -/
theorem outcome_ofModel_inDoubles [Machine] {m m' : Model} (same : m'.inDoubles = m.inDoubles)
    (samples seed : Value) :
    (Estimate.calculate { Estimate.ofModel m' Estimate.usualName with samples, seed }).1 =
      (Estimate.calculate { Estimate.ofModel m Estimate.usualName with samples, seed }).1 :=
  Estimate.outcome_calculate_inDoubles same rfl rfl

/-! ## The session -/

theorem runEstimator_of_read [Machine] {args : List String} {o : Options} {ending : Ending}
    (read : estimator.read args = ⟨[], .ok o⟩) (standard : o.output = .standard)
    (ends : (estimate o).result = .ok ending) (d : Directory) :
    (runEstimator args d).conclusion = .ended ending ∧ (runEstimator args d).opened = [] ∧
      (runEstimator args d).target = none := by
  unfold runEstimator Program.carryOut
  rw [read]
  simp [openAll, ends, standard]

/-- Whatever the order and the spacing of the words, what they spell is estimated as if it had been
assigned directly. -/
theorem runEstimator_direct [Machine] {formula : String} {start : Model} {chosen : Bindings}
    {words : List String} {settings : List Setting}
    (accepted : (Model.ofFormula (.text formula)).result = .ok start)
    (isArgument : estimator.classify formula = .ok .argument)
    (distinct : chosen.names.Nodup) (listed : ∀ name ∈ chosen.names, name ∈ start.bindings.names)
    (spelled : SpellAll words chosen) (readable : ∀ setting ∈ settings, setting.Readable)
    (d : Directory) :
    let session := runEstimator (commandLine formula words settings) d
    let o := asked words settings
    (∃ ending, session.conclusion = .ended ending ∧
      Shows (direct formula chosen o.samples o.seed).result o.view ending) ∧
    session.opened = [] ∧ session.target = none := by
  have areArguments := areArguments_of_spelled accepted listed spelled
  have read := read_commandLine isArgument areArguments readable
  obtain ⟨plain, vars⟩ := plain_asked words settings
  generalize asked words settings = o at read plain vars
  have plainFull : { o with subject := formula }.Plain := { plain with }
  obtain ⟨ending, ends, shows⟩ := estimate_shows plainFull
  have model := @result_described _ formula start chosen accepted listed words spelled distinct
    { o with subject := formula } rfl vars
  -- what the words assign has doubles for parameters, what is assigned directly need not
  have sameModel : Model.inDoubles { start with bindings := start.bindings.setAll chosen.inDoubles } =
      Model.inDoubles { start with bindings := start.bindings.setAll chosen } := by
    simp only [Model.inDoubles, Bindings.inDoubles_setAll, Bindings.inDoubles_inDoubles]
  have result := result_direct accepted listed o.samples o.seed
  rw [← outcome_ofModel_inDoubles sameModel] at result
  rw [result_estimated_calculate, model] at shows
  obtain ⟨concluded, opened, target⟩ := runEstimator_of_read read plainFull.output ends d
  exact ⟨⟨ending, concluded, result ▸ shows⟩, opened, target⟩

def product : Model :=
  ⟨"f", "a * b", .binary "*" (.var "a") (.var "b"), [("a", .initial), ("b", .initial)]⟩

def productChosen : Bindings := [("a", .gaussian 10 1), ("b", .poisson 3)]

def productWords : List String :=
  ["b;lambda=3 ;type= poisson", " a ; stddev=1e0; type=gaussian;mean= 10"]

def productSettings : List Setting :=
  [.seed true "4848484" 4848484, .verbose, .samples false "1_0" 10]

theorem spells_poisson : Spells "b;lambda=3 ;type= poisson" ("b", .poisson 3) :=
  ⟨"b".toList, [⟨"lambda".toList, "3 ".toList⟩, ⟨"type".toList, " poisson".toList⟩], rfl, rfl,
    [("lambda", .text "3")], rfl, .swap _ _ []⟩

theorem spells_gaussian :
    Spells " a ; stddev=1e0; type=gaussian;mean= 10" ("a", .gaussian 10 1) :=
  ⟨" a ".toList, [⟨" stddev".toList, "1e0".toList⟩, ⟨" type".toList, "gaussian".toList⟩,
      ⟨"mean".toList, " 10".toList⟩], rfl, rfl,
    [("mean", .text "10"), ("stddev", .text "1e0")], rfl, (List.Perm.swap _ _ _).trans
      (.cons _ (.swap _ _ []))⟩

theorem spellAll_product : SpellAll productWords productChosen :=
  ⟨[("b", .poisson 3), ("a", .gaussian 10 1)], .swap _ _ [],
    .cons spells_poisson (.cons spells_gaussian .nil)⟩

theorem readable_product : ∀ setting ∈ productSettings, setting.Readable := by
  have seed : Decimal.readWhole 10 "4848484" = .number 4848484 := by decide
  have samples : Decimal.readWhole 10 "1_0" = .number 10 := by decide
  refine List.forall_mem_cons.mpr ⟨⟨seed, nofun⟩, List.forall_mem_cons.mpr ⟨trivial, ?_⟩⟩
  exact List.forall_mem_singleton.mpr ⟨samples, fun _ => rfl⟩

section

attribute [local instance] Machine.standard

theorem runEstimator_direct_product :
    (Model.ofFormula (.text "f = a * b")).result = .ok product ∧
    estimator.classify "f = a * b" = .ok .argument ∧ productChosen.names.Nodup ∧
    (∀ name ∈ productChosen.names, name ∈ product.bindings.names) ∧
    SpellAll productWords productChosen ∧ (∀ setting ∈ productSettings, setting.Readable) ∧
    let session := runEstimator ["f = a * b", "--vars", "b;lambda=3 ;type= poisson",
      " a ; stddev=1e0; type=gaussian;mean= 10", "--seed=4848484", "-v", "--samples", "1_0"] []
    (∃ ending, session.conclusion = .ended ending ∧
      Shows (direct "f = a * b" productChosen (.int 10) (.int 4848484)).result .verbose ending) ∧
    session.opened = [] ∧ session.target = none := by
  have accepted : (Model.ofFormula (.text "f = a * b")).result = .ok product := rfl
  have isArgument : estimator.classify "f = a * b" = .ok .argument := rfl
  have distinct : productChosen.names.Nodup := by decide
  have listed : ∀ name ∈ productChosen.names, name ∈ product.bindings.names := by decide
  exact ⟨accepted, isArgument, distinct, listed, spellAll_product, readable_product,
    runEstimator_direct accepted isArgument distinct listed spellAll_product readable_product []⟩

end

/-! ## Numbers with too many digits -/

/-- A number of samples with too many digits is refused before there is an estimate. -/
theorem misused_of_tooLong [Machine] {formula text : String} {digits : Nat}
    (isFormula : estimator.classify formula = .ok .argument)
    (isArgument : estimator.classify text = .ok .argument)
    (long : Decimal.readWhole 10 text = .tooLong digits) (d : Directory) :
    (runEstimator [formula, "--samples", text] d).conclusion =
      .misused (Flag.samples.complaint ("invalid int value: " ++ Text.quoted text)) := by
  have found : estimator.classifyAll [formula, "--samples", text] = .ok
      [(formula, .argument), ("--samples", .flag ⟨.samples, "--samples", none⟩),
        (text, .argument)] :=
    classifyAll_of_words (.cons ⟨rfl, isFormula⟩ (.cons (Setting.isWord_of_named rfl)
      (.cons ⟨rfl, isArgument⟩ .nil)))
  have isDone : IsDone [("--samples", .flag ⟨.samples, "--samples", none⟩), (text, .argument)] := by
    intro found isFirst
    cases isFirst
    rfl
  have takes : takeSpelled estimator ⟨.samples, "--samples", none⟩ [(text, .argument)] =
      .ok ⟨[(.samples, [text])], []⟩ := rfl
  have read : estimator.read [formula, "--samples", text] = ⟨[], .error
      (.usage (Flag.samples.complaint ("invalid int value: " ++ Text.quoted text)))⟩ := by
    unfold Program.read
    rw [found]
    dsimp only [List.length_cons]
    rw [readWords_formula formula isDone, readWords_flag takes, Progress.take, wholeArgument, long]
    rfl
  unfold runEstimator Program.carryOut
  rw [read]
  rfl

theorem classify_whole (n : Nat) : estimator.classify (Decimal.whole n) = .ok .argument := by
  apply classify_of_head?
  rintro c isFirst rfl
  rw [Decimal.whole_natCast] at isFirst
  have digit := Decimal.isAsciiDigit_of_mem_digits (List.mem_of_mem_head? isFirst)
  cases digit

def tooMany : Nat := 10 ^ Decimal.digitLimit

section

attribute [local instance] Machine.standard

theorem direct_tooMany :
    (direct "x" [] (.int tooMany) .null).result = .error (.unsuitable .beyondCount) := by
  have accepted : (Model.ofFormula (.text "x")).result =
      .ok ⟨"f", "x", .var "x", [("x", .initial)]⟩ := rfl
  have beyond : 2 ^ 63 ≤ tooMany :=
    calc 2 ^ 63 ≤ 10 ^ 63 := Nat.pow_le_pow_left (by decide) 63
      _ ≤ 10 ^ Decimal.digitLimit := Nat.pow_le_pow_right (by decide) (by decide)
  have refused : Machine.row false (tooMany : Int).toNat = .error (.unsuitable .beyondCount) :=
    Machine.Standard.row_of_ge beyond false
  rw [result_direct accepted (List.forall_mem_nil _), Estimate.result_calculate rfl]
  change (Simulation.outcomeOf _ _ (.int tooMany) _).result = _
  simp only [Simulation.outcomeOf, Value.toWhole, refused]
  rfl

/-- A number of samples with too many digits is refused by the command line, but not for what is
wrong with it as a number of samples. -/
theorem runEstimator_tooMany :
    (runEstimator ["x", "--samples", Decimal.whole tooMany] []).conclusion = .misused
      (Flag.samples.complaint ("invalid int value: " ++ Text.quoted (Decimal.whole tooMany))) ∧
    Shows (direct "x" [] (.int tooMany) .null).result .summary
      (.refused "Maximum allowed dimension exceeded") := by
  constructor
  · exact misused_of_tooLong rfl (classify_whole tooMany) (Decimal.readWhole_of_le le_rfl) []
  · rw [direct_tooMany]
    exact .failed rfl

end

end Reckon.Command
