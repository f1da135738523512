import Reckon.Command.Flag
import Reckon.Decimal.Whole
import Reckon.Simulation.Run

/-!
Reading a command line.

The first word that no flag takes is the subject of the command; further ones are refused. Flags
take effect in order, so a file is opened before anything after it is refused.
-/

set_option autoImplicit false

namespace Reckon.Command

inductive Output where
  | standard
  | file (name : String)
  | nothing
  deriving DecidableEq, Repr

structure Options where
  subject : String
  vars : List String
  output : Output
  format : Option String
  samples : Value
  seed : Value
  short : Bool
  verbose : Nat

inductive Stop where
  | help
  | usage (message : String)

structure Progress where
  options : Options
  subject : Option String
  extras : List String
  opened : List String

/-- What a command line comes to: the files that it opens, and what it asks for. -/
structure Reading where
  opened : List String
  outcome : Except Stop Options

def Progress.initial : Progress :=
  { options := ⟨"", [], .standard, none, .int Simulation.standardTrials, .null, false, 0⟩
    subject := none
    extras := []
    opened := [] }

structure Halt where
  stop : Stop
  opened : List String

def Progress.refuse {α : Type} (s : Progress) (message : String) : Except Halt α :=
  .error ⟨.usage message, s.opened⟩

def formats : List String := ["html", "txt", "md"]

def wholeArgument (flag : Flag) (text : String) (s : Progress) : Except Halt Value :=
  match Decimal.readWhole 10 text with
  | .number n => .ok (.int n)
  | _ => s.refuse (flag.complaint ("invalid int value: " ++ Text.quoted text))

/-- What a name for output must not be: one that holds the character that ends names. -/
def badOutput (name : String) : String :=
  "invalid FileType('w', encoding='UTF-8') value: " ++ Text.quoted name

def Progress.take (s : Progress) (flag : Flag) (taken : List String) : Except Halt Progress :=
  let o := s.options
  match flag, taken with
  | .help, _ => .error ⟨.help, s.opened⟩
  | .vars, words => .ok { s with options := { o with vars := words } }
  | .output, word :: _ =>
    if word = "-" then .ok { s with options := { o with output := .standard } }
    else if word.toList.contains (Char.ofNat 0) then s.refuse (flag.complaint (badOutput word))
    else
      .ok { s with options := { o with output := .file word }, opened := s.opened ++ [word] }
  -- a flag that takes one word has none if the word was taken for a separator
  | .output, [] => .ok { s with options := { o with output := .nothing } }
  | .format, word :: _ =>
    if formats.contains word then .ok { s with options := { o with format := some word } }
    else
      s.refuse (flag.complaint ("invalid choice: " ++ Text.quoted word ++ " (choose from "
        ++ Text.join ", " (formats.map Text.quoted) ++ ")"))
  | .format, [] => .ok { s with options := { o with format := none } }
  | .samples, word :: _ => do
    let samples ← wholeArgument flag word s
    return { s with options := { o with samples } }
  | .samples, [] => .ok { s with options := { o with samples := .list [] } }
  | .seed, word :: _ => do
    let seed ← wholeArgument flag word s
    return { s with options := { o with seed } }
  | .seed, [] => .ok { s with options := { o with seed := .list [] } }
  | .short, _ => .ok { s with options := { o with short := true } }
  | .verbose, _ => .ok { s with options := { o with verbose := o.verbose + 1 } }

def isArgument : String × Word → Bool
  | (_, .argument) => true
  | _ => false

def isFlag : String × Word → Bool
  | (_, .flag _) | (_, .unknown) => true
  | _ => false

/-- What a word with flags comes to: the flags with the words that they take, and the words after
it. -/
structure Taken where
  flags : List (Flag × List String)
  rest : List (String × Word)

def takeWords (flag : Flag) (rest : List (String × Word)) : Except String Taken :=
  match flag.arity with
  | .none => .ok ⟨[(flag, [])], rest⟩
  | .one =>
    match rest with
    | (word, .argument) :: rest => .ok ⟨[(flag, [word])], rest⟩
    | _ => .error (flag.complaint "expected one argument")
  | .many =>
    match rest.takeWhile isArgument with
    | [] => .error (flag.complaint "expected at least one argument")
    | taken => .ok ⟨[(flag, taken.map Prod.fst)], rest.drop taken.length⟩

/-- A flag with what its word attaches to it. -/
def takeAttached (p : Program) (flag : Flag) (isShort : Bool) (rest : List (String × Word)) :
    (attached : List Char) → Except String Taken
  | [] =>
    if flag.arity = .none then
      .error (flag.complaint ("ignored explicit argument " ++ Text.quoted ""))
    else .ok ⟨[(flag, [""])], rest⟩
  | c :: letters =>
    let word := String.ofList (c :: letters)
    if flag.arity ≠ .none then .ok ⟨[(flag, if word = "--" then [] else [word])], rest⟩
    else
      -- after a flag without words each letter is a flag of its own
      match if isShort then p.named? (String.ofList ['-', c]) else none with
      | none => .error (flag.complaint ("ignored explicit argument " ++ Text.quoted word))
      | some next => do
        let taken ← if letters.isEmpty then takeWords next rest
          else takeAttached p next true rest letters
        return { taken with flags := (flag, []) :: taken.flags }

def takeSpelled (p : Program) (spelled : Spelled) (rest : List (String × Word)) :
    Except String Taken :=
  match spelled.attached with
  | none => takeWords spelled.flag rest
  | some attached =>
    takeAttached p spelled.flag (spelled.spelling.length = 2) rest attached

/-- What the words after the last flag come to: the subject, if it is still missing, and words that
nothing takes. -/
def lastWords (s : Progress) (rest : List (String × Word)) : Progress :=
  let (subject, rest) := match s.subject, rest with
    | none, (_, .separator) :: (word, _) :: rest => (some word, rest)
    | none, (word, .argument) :: (_, .separator) :: rest => (some word, rest)
    | none, (word, .argument) :: rest => (some word, rest)
    | subject, rest => (subject, rest)
  { s with subject, extras := s.extras ++ rest.map Prod.fst }

def readWords (p : Program) : (fuel : Nat) → Progress → List (String × Word) →
    Except Halt Progress
  | 0, s, _ => .ok s
  | fuel + 1, s, words =>
    if words.any isFlag then
      match words with
      | [] => .ok s
      | (_, .flag spelled) :: rest =>
        match takeSpelled p spelled rest with
        | .error message => s.refuse message
        | .ok taken => do
          let s ← taken.flags.foldlM (fun s (flag, words) => s.take flag words) s
          readWords p fuel s taken.rest
      | (word, .unknown) :: rest => readWords p fuel { s with extras := s.extras ++ [word] } rest
      | (word, _) :: rest =>
        if s.subject.isNone then readWords p fuel { s with subject := some word } rest
        else readWords p fuel { s with extras := s.extras ++ [word] } rest
    else .ok (lastWords s words)

/-- Reads a command line: the subject must be there, and every word must be taken. -/
def Program.read (p : Program) (args : List String) : Reading :=
  match p.classifyAll args with
  | .error message => ⟨[], .error (.usage message)⟩
  | .ok words =>
    match readWords p (words.length + 1) .initial words with
    | .error halt => ⟨halt.opened, .error halt.stop⟩
    | .ok s =>
      match s.subject, s.extras with
      | none, _ =>
        ⟨s.opened, .error (.usage ("the following arguments are required: " ++ p.subject))⟩
      | some subject, [] => ⟨s.opened, .ok { s.options with subject }⟩
      | some _, extras =>
        ⟨s.opened, .error (.usage ("unrecognized arguments: " ++ Text.join " " extras))⟩

end Reckon.Command
