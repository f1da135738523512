import Mathlib.Data.List.Forall2
import Reckon.Command.Options
import Reckon.Proofs.Decimal.Whole
import Reckon.Proofs.Text.Trim

/-!
Command lines that are read as they are meant.

The formula stands first, then the words for variables, and settings follow in any order: the number
of samples, the seed and the views. Each setting takes effect when its turn comes.
-/

set_option autoImplicit false

namespace Reckon.Command

/-- A part of a command line after the formula and the words for variables. -/
inductive Setting where
  /-- The number is attached to the flag by an equals sign, or a word of its own. -/
  | samples (attached : Bool) (text : String) (n : Int)
  | seed (attached : Bool) (text : String) (n : Int)
  | short
  | verbose

namespace Setting

def flagged (name text : String) (attached : Bool) : List String :=
  if attached then [name ++ "=" ++ text] else [name, text]

def words : Setting → List String
  | samples attached text _ => flagged "--samples" text attached
  | seed attached text _ => flagged "--seed" text attached
  | short => ["-s"]
  | verbose => ["-v"]

def apply (o : Options) : Setting → Options
  | samples _ _ n => { o with samples := .int n }
  | seed _ _ n => { o with seed := .int n }
  | short => { o with short := true }
  | verbose => { o with verbose := o.verbose + 1 }

/-- The text writes the number, and if it is a word of its own it is not taken for a flag. -/
def Writes (attached : Bool) (text : String) (n : Int) : Prop :=
  Decimal.readWhole 10 text = .number n ∧
    (attached = false → estimator.classify text = .ok .argument)

def Readable : Setting → Prop
  | samples attached text n | seed attached text n => Writes attached text n
  | short | verbose => True

end Setting

/-- The flag for the words of variables with these words, if there are any. -/
def varsWords : List String → List String
  | [] => []
  | words => "--vars" :: words

def commandLine (formula : String) (vars : List String) (settings : List Setting) : List String :=
  formula :: (varsWords vars ++ settings.flatMap Setting.words)

def asked (vars : List String) (settings : List Setting) : Options :=
  settings.foldl Setting.apply { Progress.initial.options with vars }

/-! ## What the words are -/

def IsWord (word : String) (found : String × Word) : Prop :=
  found.1 = word ∧ estimator.classify word = .ok found.2

theorem ne_separator {word : String} {kind : Word} (isKind : estimator.classify word = .ok kind) :
    word ≠ "--" := by
  rintro rfl
  cases isKind

theorem classifyAll_of_words {words : List String} {found : List (String × Word)}
    (areWords : List.Forall₂ IsWord words found) : estimator.classifyAll words = .ok found := by
  induction areWords with
  | nil => rfl
  | @cons word kind words found first _ ih =>
    obtain ⟨same, isKind⟩ := first
    rw [Program.classifyAll, if_neg (ne_separator isKind), isKind, ih]
    simp only [← same]
    rfl

theorem classify_of_head? {word : String} (noDash : ∀ c ∈ word.toList.head?, c ≠ '-') :
    estimator.classify word = .ok .argument := by
  unfold Program.classify
  dsimp only
  split
  · next letters =>
    rw [letters] at noDash
    exact absurd rfl (noDash '-' rfl)
  · rfl

theorem shape_of_spelling : ∀ entry ∈ estimator.spellings,
    (∃ second rest, entry.1.toList = '-' :: second :: rest) ∧ '=' ∉ entry.1.toList := by
  intro entry member
  have shape : ∀ entry ∈ estimator.spellings, entry.1.toList.head? = some '-' ∧
      2 ≤ entry.1.toList.length ∧ '=' ∉ entry.1.toList := by decide
  obtain ⟨dash, long, plain⟩ := shape entry member
  refine ⟨?_, plain⟩
  rcases letters : entry.1.toList with _ | ⟨first, _ | ⟨second, rest⟩⟩
  · simp [letters] at long
  · simp [letters] at long
  · rw [letters] at dash
    exact ⟨second, rest, by rw [Option.some.inj dash]⟩

section

variable {flag : Flag} {name : String} (named : estimator.named? name = some flag)

include named

theorem shape_of_named :
    (∃ second rest, name.toList = '-' :: second :: rest) ∧ '=' ∉ name.toList := by
  obtain ⟨before, after, isSplit, _⟩ := List.lookup_eq_some_iff.mp named
  exact shape_of_spelling (name, flag) (isSplit ▸ List.mem_append_right before List.mem_cons_self)

theorem classify_of_named : estimator.classify name = .ok (.flag ⟨flag, name, none⟩) := by
  obtain ⟨⟨second, rest, letters⟩, _⟩ := shape_of_named named
  unfold Program.classify
  dsimp only
  rw [letters]
  simp only [named]

theorem classify_attached (text : String) :
    estimator.classify (name ++ "=" ++ text) = .ok (.flag ⟨flag, name, some text.toList⟩) := by
  obtain ⟨⟨second, rest, letters⟩, plain⟩ := shape_of_named named
  have whole : (name ++ "=" ++ text).toList = name.toList ++ '=' :: text.toList := by simp
  -- the whole word is no flag, so what stands before the equals sign is looked up
  have unnamed : estimator.named? (name ++ "=" ++ text) = none := by
    refine List.lookup_eq_none_iff.mpr fun entry member => ?_
    have sign : '=' ∈ (name ++ "=" ++ text).toList := by simp
    have differs : name ++ "=" ++ text ≠ entry.1 := by
      intro same
      rw [same] at sign
      exact (shape_of_spelling entry member).2 sign
    simpa using differs
  have assigned : estimator.assigned? (name.toList ++ '=' :: text.toList) =
      some ⟨flag, name, some text.toList⟩ := by
    rw [Program.assigned?, Text.cut?_append plain]
    simp [named]
  unfold Program.classify
  dsimp only
  rw [unnamed, whole, assigned, letters]
  rfl

end

/-! ## What the flags take -/

def IsDone (rest : List (String × Word)) : Prop :=
  ∀ found ∈ rest.head?, isFlag found = true

theorem takeWords_one {flag : Flag} (one : flag.arity = .one) (text : String)
    (rest : List (String × Word)) :
    takeWords flag ((text, .argument) :: rest) = .ok ⟨[(flag, [text])], rest⟩ := by
  rw [takeWords, one]

theorem takeWords_many {flag : Flag} (many : flag.arity = .many) (first : String)
    (others : List String) {rest : List (String × Word)} (isDone : IsDone rest) :
    takeWords flag ((first :: others).map (fun word => (word, Word.argument)) ++ rest) =
      .ok ⟨[(flag, first :: others)], rest⟩ := by
  have areArguments : ∀ found ∈ (first :: others).map fun word => (word, Word.argument),
      isArgument found = true := by
    intro found member
    obtain ⟨word, _, rfl⟩ := List.mem_map.mp member
    rfl
  have noFurther : rest.takeWhile isArgument = [] := by
    cases rest with
    | nil => rfl
    | cons found rest =>
      obtain ⟨word, kind⟩ := found
      have flagged := isDone _ rfl
      cases kind <;> first | rfl | cases flagged
  unfold takeWords
  rw [many]
  dsimp only
  rw [List.takeWhile_append_of_pos areArguments, noFurther, List.append_nil]
  simp [List.map_map, Function.comp_def]

section

variable {text : String} {n : Int} (writes : Decimal.readWhole 10 text = .number n)

include writes

theorem takeAttached_whole {flag : Flag} (takes : flag.arity ≠ .none) (isShort : Bool)
    (rest : List (String × Word)) :
    takeAttached estimator flag isShort rest text.toList = .ok ⟨[(flag, [text])], rest⟩ := by
  have isText : String.ofList text.toList = text := String.ofList_toList
  rcases letters : text.toList with _ | ⟨c, cs⟩
  · rw [letters] at isText
    rw [← isText] at writes
    cases writes
  · rw [letters] at isText
    have other : text ≠ "--" := by
      rintro rfl
      cases writes
    rw [takeAttached, if_pos takes, isText, if_neg other]

theorem wholeArgument_of_writes (flag : Flag) (s : Progress) :
    wholeArgument flag text s = .ok (.int n) := by
  rw [wholeArgument, writes]

end

/-- A flag that takes words has its effect on what follows, which may be a refusal. -/
theorem readWords_flag {word : String} {spelled : Spelled} {rest after : List (String × Word)}
    {flag : Flag} {taken : List String}
    (takes : takeSpelled estimator spelled rest = .ok ⟨[(flag, taken)], after⟩) (s : Progress)
    (fuel : Nat) :
    readWords estimator (fuel + 1) s ((word, .flag spelled) :: rest) =
      (s.take flag taken).bind fun next => readWords estimator fuel next after := by
  have some : ((word, Word.flag spelled) :: rest).any isFlag = true := by simp [isFlag]
  rw [readWords, if_pos some]
  dsimp only
  rw [takes]
  dsimp only
  rw [List.foldlM_cons]
  dsimp only
  cases s.take flag taken <;> rfl

/-! ## Settings -/

namespace Setting

/-- The words of a flag that takes one word, as they are understood. -/
def flaggedFound (flag : Flag) (name text : String) (attached : Bool) : List (String × Word) :=
  if attached then [(name ++ "=" ++ text, .flag ⟨flag, name, some text.toList⟩)]
  else [(name, .flag ⟨flag, name, none⟩), (text, .argument)]

def found : Setting → List (String × Word)
  | samples attached text _ => flaggedFound .samples "--samples" text attached
  | seed attached text _ => flaggedFound .seed "--seed" text attached
  | short => [("-s", .flag ⟨.short, "-s", none⟩)]
  | verbose => [("-v", .flag ⟨.verbose, "-v", none⟩)]

theorem isWord_of_named {flag : Flag} {name : String} (named : estimator.named? name = some flag) :
    IsWord name (name, .flag ⟨flag, name, none⟩) :=
  ⟨rfl, classify_of_named named⟩

theorem areWords_flagged {flag : Flag} {name text : String}
    (named : estimator.named? name = some flag) {attached : Bool} {n : Int}
    (writes : Writes attached text n) :
    List.Forall₂ IsWord (flagged name text attached) (flaggedFound flag name text attached) := by
  cases attached with
  | true => exact .cons ⟨rfl, classify_attached named text⟩ .nil
  | false => exact .cons (isWord_of_named named) (.cons ⟨rfl, writes.2 rfl⟩ .nil)

theorem areWords {setting : Setting} (readable : setting.Readable) :
    List.Forall₂ IsWord setting.words setting.found := by
  cases setting with
  | samples attached text n => exact areWords_flagged rfl readable
  | seed attached text n => exact areWords_flagged rfl readable
  | short => exact .cons (isWord_of_named rfl) .nil
  | verbose => exact .cons (isWord_of_named rfl) .nil

theorem exists_found (setting : Setting) :
    ∃ word spelled rest, setting.found = (word, .flag spelled) :: rest := by
  cases setting with
  | samples attached _ _ | seed attached _ _ => cases attached <;> exact ⟨_, _, _, rfl⟩
  | _ => exact ⟨_, _, _, rfl⟩

theorem readWords_flagged {flag : Flag} {name text : String} (one : flag.arity = .one)
    {attached : Bool} {n : Int} (writes : Writes attached text n) (s : Progress) (fuel : Nat)
    (rest : List (String × Word)) :
    readWords estimator (fuel + 1) s (flaggedFound flag name text attached ++ rest) =
      (s.take flag [text]).bind fun next => readWords estimator fuel next rest := by
  cases attached with
  | true =>
    refine readWords_flag ?_ s fuel
    exact takeAttached_whole writes.1 (by rw [one]; decide) _ rest
  | false =>
    refine readWords_flag ?_ s fuel
    exact takeWords_one one text rest

theorem readWords_found {setting : Setting} (readable : setting.Readable) (s : Progress)
    (fuel : Nat) (rest : List (String × Word)) :
    readWords estimator (fuel + 1) s (setting.found ++ rest) =
      readWords estimator fuel { s with options := setting.apply s.options } rest := by
  cases setting with
  | samples attached text n =>
    refine (readWords_flagged rfl readable s fuel rest).trans ?_
    rw [Progress.take, wholeArgument_of_writes readable.1]
    rfl
  | seed attached text n =>
    refine (readWords_flagged rfl readable s fuel rest).trans ?_
    rw [Progress.take, wholeArgument_of_writes readable.1]
    rfl
  | short => exact @readWords_flag "-s" ⟨.short, "-s", none⟩ rest rest .short [] rfl s fuel
  | verbose => exact @readWords_flag "-v" ⟨.verbose, "-v", none⟩ rest rest .verbose [] rfl s fuel

end Setting

theorem isDone_flatMap (settings : List Setting) : IsDone (settings.flatMap Setting.found) := by
  cases settings with
  | nil => exact fun _ none => by cases none
  | cons setting settings =>
    obtain ⟨word, spelled, rest, isFound⟩ := setting.exists_found
    intro found isFirst
    rw [List.flatMap_cons, isFound] at isFirst
    cases isFirst
    rfl

/-- Settings take effect one after the other, and nothing is left of their words. -/
theorem readWords_flatMap {settings : List Setting}
    (readable : ∀ setting ∈ settings, setting.Readable) {s : Progress} {subject : String}
    (isSubject : s.subject = some subject) {fuel : Nat} (enough : settings.length ≤ fuel) :
    readWords estimator fuel s (settings.flatMap Setting.found) =
      .ok { s with options := settings.foldl Setting.apply s.options } := by
  induction settings generalizing s fuel with
  | nil =>
    cases fuel with
    | zero => rfl
    | succ fuel =>
      rw [List.flatMap_nil, readWords]
      simp [lastWords]
  | cons setting settings ih =>
    obtain ⟨readableFirst, readableRest⟩ := List.forall_mem_cons.mp readable
    obtain ⟨fuel, rfl⟩ : ∃ smaller, fuel = smaller + 1 := ⟨fuel - 1, by simp at enough; omega⟩
    have enoughRest : settings.length ≤ fuel := by simpa using enough
    rw [List.flatMap_cons, Setting.readWords_found readableFirst]
    have isSubjectNext : { s with options := setting.apply s.options }.subject = some subject :=
      isSubject
    exact ih readableRest isSubjectNext enoughRest

theorem areWords_flatMap {settings : List Setting}
    (readable : ∀ setting ∈ settings, setting.Readable) :
    List.Forall₂ IsWord (settings.flatMap Setting.words) (settings.flatMap Setting.found) := by
  induction settings with
  | nil => exact .nil
  | cons setting settings ih =>
    obtain ⟨readableFirst, readableRest⟩ := List.forall_mem_cons.mp readable
    exact List.rel_append (Setting.areWords readableFirst) (ih readableRest)

theorem length_le_flatMap (settings : List Setting) :
    settings.length ≤ (settings.flatMap Setting.found).length := by
  induction settings with
  | nil => rfl
  | cons setting settings ih =>
    obtain ⟨word, spelled, rest, isFound⟩ := setting.exists_found
    rw [List.flatMap_cons, isFound, List.length_append, List.length_cons, List.length_cons]
    omega

/-! ## The whole line -/

/-- The words of variables and their flag, as they are understood. -/
def varsFound : List String → List (String × Word)
  | [] => []
  | words =>
    ("--vars", .flag ⟨.vars, "--vars", none⟩) :: words.map fun word => (word, .argument)

theorem areWords_vars {vars : List String}
    (areArguments : ∀ word ∈ vars, estimator.classify word = .ok .argument) :
    List.Forall₂ IsWord (varsWords vars) (varsFound vars) := by
  cases vars with
  | nil => exact .nil
  | cons first others =>
    refine .cons (Setting.isWord_of_named rfl) ?_
    rw [List.forall₂_map_right_iff, List.forall₂_same]
    exact fun word member => ⟨rfl, areArguments word member⟩

section

variable {settings : List Setting} (readable : ∀ setting ∈ settings, setting.Readable)

include readable

theorem readWords_vars (vars : List String) {s : Progress} (fresh : s.options.vars = [])
    {subject : String} (isSubject : s.subject = some subject) {fuel : Nat}
    (enough : settings.length < fuel) :
    readWords estimator fuel s (varsFound vars ++ settings.flatMap Setting.found) =
      .ok { s with options := settings.foldl Setting.apply { s.options with vars } } := by
  cases vars with
  | nil =>
    have same : { s.options with vars := [] } = s.options := by rw [← fresh]
    rw [same]
    exact readWords_flatMap readable isSubject enough.le
  | cons first others =>
    obtain ⟨fuel, rfl⟩ : ∃ smaller, fuel = smaller + 1 := ⟨fuel - 1, by omega⟩
    have isDone := isDone_flatMap settings
    have takes : takeSpelled estimator ⟨.vars, "--vars", none⟩
        ((first :: others).map (fun word => (word, Word.argument)) ++
          settings.flatMap Setting.found) =
        .ok ⟨[(.vars, first :: others)], settings.flatMap Setting.found⟩ :=
      @takeWords_many .vars rfl first others _ isDone
    have isSubjectNext :
        { s with options := { s.options with vars := first :: others } }.subject = some subject :=
      isSubject
    exact (readWords_flag takes s fuel).trans
      (readWords_flatMap readable isSubjectNext (Nat.le_of_lt_succ enough))

end

/-- The formula stands first, and a flag comes after it if anything does. -/
theorem readWords_formula (formula : String) {rest : List (String × Word)} (isDone : IsDone rest)
    (fuel : Nat) :
    readWords estimator (fuel + 2) .initial ((formula, .argument) :: rest) =
      readWords estimator (fuel + 1) { Progress.initial with subject := some formula } rest := by
  cases rest with
  | nil => rfl
  | cons found rest =>
    -- while flags are still to come, the first argument is the subject at once
    have some : ((formula, Word.argument) :: found :: rest).any isFlag = true := by
      simp [isDone found rfl]
    rw [readWords, if_pos some]
    · rfl
    · nofun
    · nofun

/-- A command line asks for the formula, the words of variables and what its settings say. -/
theorem read_commandLine {formula : String} {vars : List String} {settings : List Setting}
    (isArgument : estimator.classify formula = .ok .argument)
    (areArguments : ∀ word ∈ vars, estimator.classify word = .ok .argument)
    (readable : ∀ setting ∈ settings, setting.Readable) :
    estimator.read (commandLine formula vars settings) =
      ⟨[], .ok { asked vars settings with subject := formula }⟩ := by
  have found : estimator.classifyAll (commandLine formula vars settings) =
      .ok ((formula, .argument) :: (varsFound vars ++ settings.flatMap Setting.found)) := by
    have areWords := List.rel_append (areWords_vars areArguments) (areWords_flatMap readable)
    exact classifyAll_of_words (.cons ⟨rfl, isArgument⟩ areWords)
  have isDone : IsDone (varsFound vars ++ settings.flatMap Setting.found) := by
    cases vars with
    | nil => exact isDone_flatMap settings
    | cons first others =>
      intro found isFirst
      cases isFirst
      rfl
  have enough : settings.length <
      (varsFound vars ++ settings.flatMap Setting.found).length + 1 := by
    have few := length_le_flatMap settings
    rw [List.length_append]
    omega
  have isSubject : { Progress.initial with subject := some formula }.subject = some formula := rfl
  unfold Program.read
  rw [found]
  dsimp only
  rw [List.length_cons, readWords_formula formula isDone,
    readWords_vars readable vars rfl isSubject enough]
  rfl

end Reckon.Command
