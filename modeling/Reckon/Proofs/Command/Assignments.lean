import Reckon.Command.Run
import Reckon.Proofs.Model.Coherence
import Reckon.Proofs.Project.Kinds

/-!
Words of a command line that assign distributions.

Whatever a word says, it is refused with a message, unless it has a parameter with a name that
assignments keep for themselves.
-/

set_option autoImplicit false

namespace Reckon

open Entries

/-! ## Parameters that are texts or numbers -/

/-- The name of a parameter that a distribution can be given. -/
def IsParameter (key : Value) : Prop :=
  key.isText = true ∧ key ≠ .text "name"

/-- A value that says what a parameter is, or is refused with a message. -/
def IsArgument (value : Value) : Prop :=
  value.isName = true ∧ value.isWithinDoubles = true ∧ value.depth = 0

theorem isParameter_text {name : String} (other : name ≠ "name") : IsParameter (.text name) :=
  ⟨rfl, fun same => other (Value.text.inj same)⟩

theorem isArgument_text (s : String) : IsArgument (.text s) := ⟨rfl, rfl, rfl⟩

theorem isArgument_real (x : Float) : IsArgument (.real x) := ⟨rfl, rfl, rfl⟩

namespace Distribution

theorem name_notMem_parameters (kind : Kind) : "name" ∉ kind.parameters := by
  cases kind <;> decide

theorem each_config (d : Distribution) : Each IsParameter IsArgument d.config := by
  have first : IsParameter (.text "type") := isParameter_text (by decide)
  refine List.forall_mem_cons.mpr ⟨⟨first, isArgument_text _⟩, ?_⟩
  intro entry member
  obtain ⟨⟨name, x⟩, isPair, rfl⟩ := List.mem_map.mp member
  have listed := (List.of_mem_zip isPair).1
  have other : name ≠ "name" := by
    rintro rfl
    exact name_notMem_parameters d.kind listed
  exact ⟨isParameter_text other, isArgument_real x.toFloat⟩

section

variable {record : Entries} (each : Each IsParameter IsArgument record)

include each

theorem unkept_of_each : Unkept record :=
  fun entry member => (each entry member).1.2

theorem fits_of_each {kind : Value} (named : kind.isName = true) : fits kind record = true := by
  rw [fits, named, Bool.true_and, List.all_eq_true]
  intro entry member
  obtain ⟨⟨text, _⟩, _, within, _⟩ := each entry member
  change (entry.1.isText && entry.2.isWithinDoubles) = true
  rw [text, within]
  rfl

theorem depth_of_each : (Value.record record).depth ≤ 1 := by
  refine Value.depth_record_le_iff.mpr fun entry member => ?_
  obtain ⟨⟨text, _⟩, _, _, flat⟩ := each entry member
  refine ⟨?_, flat.le⟩
  cases isText : entry.1 <;> simp_all [Value.isText, Value.depth]

theorem recordFits_of_each : recordFits record = true := by
  have named : ((record.get? "type").getD (.text "uniform")).isName = true := by
    cases found : record.get? "type" with
    | none => rfl
    | some value =>
      obtain ⟨key, member, _⟩ := mem_of_get? found
      exact (each _ member).2.1
  exact fits_of_each (each.without "type") named

end

end Distribution

namespace Model

theorem resolve_due [Machine] {given : Entries} (each : Each IsParameter IsArgument given)
    {kind : Value} (named : kind = .null ∨ ∃ name, kind = .text name) (current : Distribution) :
    FailsFor (Due true 1) ((Assignment.ofValue kind given).resolve current).result := by
  rcases named with rfl | ⟨name, rfl⟩
  · -- without a kind the parameters go into the record of the distribution that is there
    have merged := current.each_config.merge each
    exact (Distribution.ofRecord_due (Distribution.unkept_of_each merged)).due_mono
      (fun _ => Distribution.recordFits_of_each merged) (Distribution.depth_of_each merged)
  · exact (Distribution.make_due (Distribution.unkept_of_each each) (Nat.zero_le 1)
      (Distribution.depth_of_each each)).due_mono
        (fun _ => Distribution.fits_of_each each rfl) le_rfl

end Model

namespace Command

/-! ## What a word gives -/

/-- A text after the name of the variable, and the name of the parameter that it gives. -/
def Gives (texts : List (List Char)) (key : String) : Prop :=
  ∃ text ∈ texts, ∃ name value,
    Text.cut? '=' text = some (name, value) ∧ key = String.ofList (Text.trimChars name)

/-- The word gives a parameter with a name that assignments keep for themselves. -/
def GivesKept (word : String) : Prop :=
  ∃ key ∈ Model.keptNames, Gives (Text.fields ';' word.toList).tail key

theorem parameters_due [Machine] (index : Nat) (texts : List (List Char)) :
    FailsFor (Due true 1) (parameters index texts) := by
  induction texts generalizing index with
  | nil => exact .ok _
  | cons text texts ih =>
    rw [parameters]
    apply FailsFor.bind
    · unfold parameter
      split
      · exact .ok _
      · exact .error trivial
    · intro _ _
      exact (ih (index + 1)).bind fun _ _ => .ok _

/-- All values are texts, and all keys are texts too, with this property. -/
def EachText (isName : String → Prop) (entries : Entries) : Prop :=
  Each (fun key => ∃ name, key = .text name ∧ isName name) (fun value => ∃ s, value = .text s) entries

theorem each_parameters {index : Nat} {texts : List (List Char)} {written : Entries}
    (done : parameters index texts = .ok written) :
    EachText (fun name => Gives texts (Text.trim name)) written := by
  induction texts generalizing index written with
  | nil =>
    cases done
    exact List.forall_mem_nil _
  | cons text texts ih =>
    obtain ⟨first, isFirst, done⟩ := bind_eq_ok.mp done
    obtain ⟨rest, others, done⟩ := bind_eq_ok.mp done
    cases done
    unfold parameter at isFirst
    split at isFirst
    · next name value cut =>
      -- a name is trimmed only later, when the whole record is
      cases isFirst
      refine List.forall_mem_cons.mpr ⟨⟨⟨_, rfl, ?_⟩, _, rfl⟩, ?_⟩
      · refine ⟨text, List.mem_cons_self, name, value, cut, ?_⟩
        rw [Text.trim, String.toList_ofList]
      · intro entry member
        obtain ⟨⟨name, isName, text, isText, gives⟩, valued⟩ := ih others entry member
        exact ⟨⟨name, isName, text, List.mem_cons_of_mem _ isText, gives⟩, valued⟩
    · cases isFirst

def given (written : Entries) : Entries :=
  Entries.ofPairs ((Entries.ofPairs written).map fun (key, value) => (trimmed key, trimmed value))

theorem each_given {index : Nat} {texts : List (List Char)} {written : Entries}
    (done : parameters index texts = .ok written) : EachText (Gives texts) (given written) := by
  have each := Each.ofPairs (each_parameters done)
  refine Each.ofPairs ?_
  intro entry member
  obtain ⟨⟨key, value⟩, isEntry, rfl⟩ := List.mem_map.mp member
  obtain ⟨⟨name, isName, gives⟩, s, isText⟩ := each _ isEntry
  dsimp only at isName isText ⊢
  subst isName isText
  exact ⟨⟨_, rfl, gives⟩, _, rfl⟩

section

variable {isName : String → Prop} {entries : Entries}

theorem EachText.of_isSome {name : String} (each : EachText isName entries)
    (found : (entries.get? name).isSome = true) : isName name := by
  obtain ⟨value, found⟩ := Option.isSome_iff_exists.mp found
  obtain ⟨key, member, same⟩ := mem_of_get? found
  obtain ⟨⟨other, isText, holds⟩, _⟩ := each _ member
  dsimp only at isText
  subst isText
  have equal : other = name := by simpa using same
  rwa [equal] at holds

theorem EachText.parameters (each : EachText isName entries) (free : entries.get? "name" = none) :
    Each IsParameter IsArgument entries := by
  intro entry member
  obtain ⟨⟨name, isText, _⟩, s, isValue⟩ := each entry member
  obtain ⟨key, value⟩ := entry
  dsimp only at isText isValue
  subst isText isValue
  refine ⟨isParameter_text ?_, isArgument_text s⟩
  rintro rfl
  exact get?_ne_none member free

theorem EachText.named (each : EachText isName entries) (name : String) :
    (entries.get? name).getD .null = .null ∨
      ∃ s, (entries.get? name).getD .null = .text s := by
  cases found : entries.get? name with
  | none => exact .inl rfl
  | some value =>
    obtain ⟨key, member, _⟩ := mem_of_get? found
    exact .inr (each _ member).2

end

theorem Gives.of_filter {texts : List (List Char)} {key : String} {test : List Char → Bool}
    (gives : Gives (texts.filter test) key) : Gives texts key := by
  obtain ⟨text, member, rest⟩ := gives
  exact ⟨text, List.mem_of_mem_filter member, rest⟩

/-! ## What a word does -/

theorem assignWord_eq [Machine] (word : String) (m : Model) :
    assignWord word m =
      match Text.fields ';' word.toList with
      | [] => (pure (), m)
      | name :: texts =>
        match parameters 0 (texts.filter fun text => !(Text.trimChars text).isEmpty) with
        | .error failure => (.fail failure, m)
        | .ok written =>
          Model.assignNamed (String.ofList (Text.trimChars name))
            (((given written).get? "type").getD .null) ((given written).without "type") m := by
  unfold assignWord
  cases Text.fields ';' word.toList with
  | nil => rfl
  | cons name texts =>
    dsimp only
    cases parameters 0 (texts.filter fun text => !(Text.trimChars text).isEmpty) with
    | error failure => rfl
    | ok written => rfl

/-- Failures of words: with a message, or for a name that is kept. -/
def WordFailure (words : List String) : Failure → Prop
  | .malformed _ | .unsuitable _ | .absent _ => True
  | .unfit .reservedName => ∃ word ∈ words, GivesKept word
  | _ => False

theorem wordFailure_of_due [Machine] [Machine.Lawful] {words : List String} {failure : Failure}
    (due : Due true 1 failure) : WordFailure words failure := by
  unfold Due at due
  split at due
  · trivial
  · trivial
  · cases due
  · cases due
  · exact absurd Machine.Lawful.valueDepth_pos (Nat.not_lt_of_le (Nat.le_of_lt_succ due))
  · exact due.elim

section

variable {words : List String} {name : String} {kind : Value} {written : Entries}

theorem assign_failsFor [Machine] [Machine.Lawful] (each : Each IsParameter IsArgument written)
    (named : kind = .null ∨ ∃ name, kind = .text name) (m : Model) :
    FailsFor (WordFailure words) (Model.assign name (.ofValue kind written) m).1.result := by
  cases found : m.bindings.find? name with
  | none =>
    rw [Model.assign_of_none found]
    exact .error trivial
  | some current =>
    have due := Model.resolve_due each named current
    rw [Model.assign_of_some found]
    rcases resolved : (Model.Assignment.ofValue kind written).resolve current
      with ⟨events, failure | d⟩
    · exact .error (wordFailure_of_due (due failure (by rw [resolved])))
    · exact .ok ()

end

theorem assignWord_failsFor [Machine] [Machine.Lawful] {words : List String} {word : String}
    (member : word ∈ words)
    (m : Model) : FailsFor (WordFailure words) (assignWord word m).1.result := by
  rw [assignWord_eq]
  split
  · exact .ok ()
  · next name texts parted =>
    split
    · next failure failed =>
      exact .error (wordFailure_of_due (parameters_due _ _ failure failed))
    · next written done =>
      have each := each_given done
      have others : EachText _ ((given written).without "type") := Each.without each "type"
      unfold Model.assignNamed
      split
      · next kept =>
        obtain ⟨key, isKept, found⟩ := List.any_eq_true.mp kept
        refine .error ⟨word, member, key, isKept, ?_⟩
        rw [parted]
        exact (others.of_isSome found).of_filter
      · next free =>
        -- of the kept names only this one would reach the distribution itself
        have absent : ((given written).without "type").get? "name" = none := by
          by_contra present
          refine free (List.any_eq_true.mpr ⟨"name", by decide, ?_⟩)
          exact Option.isSome_iff_ne_none.mpr present
        exact assign_failsFor (others.parameters absent) (each.named "type") m

theorem coherent_assignWord [Machine] (word : String) {m : Model} (coherent : m.Coherent) :
    (assignWord word m).2.Coherent := by
  rw [assignWord_eq]
  split
  · exact coherent
  · split
    · exact coherent
    · exact (Model.effect m (.assignNamed _ _ _)).coherent coherent

end Command

end Reckon
