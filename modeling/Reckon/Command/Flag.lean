import Reckon.Text.Digit
import Reckon.Text.Lines

/-!
The flags of the commands, and what a word of a command line is.

A flag may be shortened as long as no other one begins like it. A word that begins with a dash is a
flag unless it is a negative number or holds a space.
-/

set_option autoImplicit false

namespace Reckon.Command

inductive Flag where
  | help
  | vars
  | output
  | format
  | samples
  | seed
  | short
  | verbose
  deriving DecidableEq, Repr

inductive Arity where
  | none
  | one
  | many
  deriving DecidableEq, Repr

namespace Flag

def names : Flag → List String
  | help => ["-h", "--help"]
  | vars => ["--vars"]
  | output => ["-o"]
  | format => ["-f"]
  | samples => ["--samples"]
  | seed => ["--seed"]
  | short => ["-s"]
  | verbose => ["--verbose", "-v"]

def arity : Flag → Arity
  | help | short | verbose => .none
  | vars => .many
  | output | format | samples | seed => .one

def complaint (flag : Flag) (what : String) : String :=
  "argument " ++ Text.join "/" flag.names ++ ": " ++ what

end Flag

structure Program where
  name : String
  subject : String
  flags : List Flag

def estimator : Program :=
  ⟨"fermicalc", "formula",
    [.help, .vars, .output, .format, .samples, .seed, .short, .verbose]⟩

def calculator : Program :=
  ⟨"fermicalcf", "filename", [.help, .output, .format, .verbose]⟩

/-- A flag as a word spells it, and what the word attaches to it: nothing, a value after an equals
sign, or further letters. -/
structure Spelled where
  flag : Flag
  spelling : String
  attached : Option (List Char)

inductive Word where
  | separator
  | argument
  | flag (spelled : Spelled)
  | unknown

/-- Whether the word is a negative number in positional notation; a line may end after it. -/
def isNegativeNumber (word : List Char) : Bool :=
  let isDigit := fun c => (Text.digit? c).isSome
  match Text.dropLineFeed word with
  | '-' :: size =>
    match Text.cut? '.' size with
    | some (units, places) => units.all isDigit && !places.isEmpty && places.all isDigit
    | none => !size.isEmpty && size.all isDigit
  | _ => false

namespace Program

def spellings (p : Program) : List (String × Flag) :=
  p.flags.flatMap fun flag => flag.names.map fun name => (name, flag)

def named? (p : Program) (name : String) : Option Flag :=
  p.spellings.lookup name

def longCandidates (p : Program) (word : List Char) : List Spelled :=
  let (start, attached) := match Text.cut? '=' word with
    | some (start, value) => (start, some value)
    | none => (word, none)
  p.spellings.filterMap fun (name, flag) =>
    if start.isPrefixOf name.toList then some ⟨flag, name, attached⟩ else none

def shortCandidates (p : Program) (word : List Char) : List Spelled :=
  p.spellings.filterMap fun (name, flag) =>
    if name.toList = word.take 2 then some ⟨flag, name, some (word.drop 2)⟩
    else if word.isPrefixOf name.toList then some ⟨flag, name, none⟩
    else none

def assigned? (p : Program) (word : List Char) : Option Spelled := do
  let (start, value) ← Text.cut? '=' word
  let name := String.ofList start
  return ⟨← p.named? name, name, some value⟩

def classify (p : Program) (word : String) : Except String Word :=
  let cs := word.toList
  match cs with
  | '-' :: second :: _ =>
    match p.named? word, p.assigned? cs with
    | some flag, _ => .ok (.flag ⟨flag, word, none⟩)
    | none, some spelled => .ok (.flag spelled)
    | none, none =>
      match if second = '-' then p.longCandidates cs else p.shortCandidates cs with
      | [] => .ok (if isNegativeNumber cs || cs.contains ' ' then .argument else .unknown)
      | [spelled] => .ok (.flag spelled)
      | several =>
        .error ("ambiguous option: " ++ word ++ " could match "
          ++ Text.join ", " (several.map Spelled.spelling))
  | _ => .ok .argument

def classifyAll (p : Program) : List String → Except String (List (String × Word))
  | [] => .ok []
  | word :: rest =>
    if word = "--" then
      .ok ((word, .separator) :: rest.map fun later => (later, .argument))
    else do
      let kind ← p.classify word
      let others ← p.classifyAll rest
      return (word, kind) :: others

end Program

end Reckon.Command
