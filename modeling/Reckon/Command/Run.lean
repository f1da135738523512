import Reckon.Command.Options
import Reckon.Document.Reader
import Reckon.Project.Basic
import Reckon.Report.Page

/-!
Carrying out a command.

What is wrong with a formula, a value or a simulation ends a command with a message. Failures of
other kinds are not expected, and the command does not answer for them.
-/

set_option autoImplicit false

namespace Reckon.Command

inductive Ending where
  | written (text : String)
  | refused (message : String)
  | crashed (failure : Failure)

/-- The extension of a file name: what follows the last point of its last part, unless only points
stand before it. -/
def extension (name : String) : String :=
  let last := (Text.fields '/' name.toList).getLastD []
  let found := (last.reverse.takeWhile (· != '.')).reverse
  let stem := last.take (last.length - found.length - 1)
  if found.length < last.length && stem.any (· != '.') then String.ofList found else ""

def Options.outputFormat (o : Options) : Option String :=
  match o.output with
  | .file name => if extension name = "" then o.format else some (extension name)
  | _ => o.format

def Options.checkOutput (o : Options) (failure : Failure) : Except Failure Unit :=
  if o.output = .nothing then .error failure else .ok ()

def reportText (o : Options) (r : Report) : Except Failure String := do
  let isPage := o.outputFormat = some "html"
  let text ← if isPage then r.page .empty else r.markdown .empty
  o.checkOutput (if isPage then .unfit .kind else .noSuchPart)
  return text ++ "\n"

def ending (text : Outcome String) : Outcome Ending :=
  ⟨text.events, .ok (match text.result with
    | .ok text => .written text
    | .error failure => .crashed failure)⟩

/-- A parameter of a variable: what stands before and after the first equals sign. -/
def parameter (index : Nat) (text : List Char) : Except Failure (Value × Value) :=
  match Text.cut? '=' text with
  | some (name, value) => .ok (.text (String.ofList name), .text (String.ofList value))
  | none => .error (.unsuitable (.pairLength index 1))

def parameters (index : Nat) : List (List Char) → Except Failure Entries
  | [] => .ok []
  | text :: rest => do
    let first ← parameter index text
    let others ← parameters (index + 1) rest
    return first :: others

def trimmed (v : Value) : Value :=
  .text (Text.trim v.toText)

/-- Assigns the distribution that a word describes: a name and parameters, separated by
semicolons. -/
def assignWord [Machine] (word : String) : Change Model Unit := do
  match Text.fields ';' word.toList with
  | [] => pure ()
  | name :: texts =>
    let written ← parameters 0 (texts.filter fun text => !(Text.trimChars text).isEmpty)
    let given := Entries.ofPairs ((Entries.ofPairs written).map fun (key, value) =>
      (trimmed key, trimmed value))
    let kind := (Entries.get? given "type").getD .null
    Model.assignNamed (String.ofList (Text.trimChars name)) kind (Entries.without given "type")

def estimated [Machine] (o : Options) : Outcome Summary := do
  let model ← Model.ofFormula (.text o.subject)
  let model ← Change.from? model (o.vars.forM assignWord)
  let estimate :=
    { Estimate.ofModel model Estimate.usualName with
      samples := o.samples
      seed := o.seed }
  (Estimate.calculate estimate).1

def shortText (s : Summary) : String :=
  let values := [s.mean, s.median, s.p5, s.p10, s.p90, s.p95]
  Text.join ", " (values.map (Decimal.generalText 9)) ++ "\n"

def estimateText [Machine] (o : Options) (s : Summary) : Except Failure String :=
  if o.short then do
    o.checkOutput .noSuchPart
    return shortText s
  else do
    let report ← if 0 < o.verbose then s.fullReport .empty else s.table .empty
    reportText o report

def answered? (names : Bool) (failure : Failure) : Option String :=
  match failure with
  | .malformed _ | .undefined _ | .noValidSamples _ | .unsuitable _ => failure.message?
  | .absent _ => if names then failure.message? else none
  | _ => none

def onFailure (names : Bool) (failure : Failure) : Ending :=
  match answered? names failure with
  | some message => .refused message
  | none => .crashed failure

def estimate [Machine] (o : Options) : Outcome Ending :=
  let work := estimated o
  match work.result with
  | .error failure => ⟨work.events, .ok (onFailure true failure)⟩
  | .ok summary =>
    let text := ending (.ofExcept (estimateText o summary))
    ⟨work.events ++ text.events, text.result⟩

/-- The project of a setup document, calculated; none if the document describes none. -/
def calculated [Machine] (file : Except Failure ByteArray) : Outcome (Option Project) := do
  let bytes ← file
  match ← Project.ofDocument (← Document.readBytes bytes) with
  | none => return none
  | some project =>
    let project ← Change.from? project Project.calculate
    return some project

def projectText [Machine] (o : Options) (p : Project) : Outcome String := do
  let report ← if 0 < o.verbose then (Project.fullReport p).1 else (Project.shortReport p).1
  reportText o report

def workThrough [Machine] (o : Options) (file : Except Failure ByteArray) : Outcome Ending :=
  let work := calculated file
  match work.result with
  | .error failure => ⟨work.events, .ok (onFailure false failure)⟩
  | .ok none => ⟨work.events, .ok (.refused ("Cannot read setup file " ++ o.subject))⟩
  | .ok (some project) =>
    let text := ending (projectText o project)
    ⟨work.events ++ text.events, text.result⟩

def cannotOpen (why : FileTrouble) (name : String) : String :=
  let quote := Text.apostrophe.toString
  Flag.output.complaint ("can" ++ quote ++ "t open " ++ quote ++ name ++ quote ++ ": [Errno "
    ++ Decimal.whole why.code ++ "] " ++ why.message ++ ": " ++ Text.quoted name)

def Program.complaint (p : Program) (message : String) : String :=
  p.name ++ ": error: " ++ message

end Reckon.Command
