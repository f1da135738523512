import Reckon.Command.Directory
import Reckon.Command.Run

/-!
A command in a directory, from its command line to the files that it leaves.

The files for output are opened while the command line is read. They are there, and empty, whatever
comes later; what was in them is gone before the setup document is read.
-/

set_option autoImplicit false

namespace Reckon.Command

inductive Conclusion where
  | help
  | misused (message : String)
  | ended (ending : Ending)

structure Session where
  conclusion : Conclusion
  events : List Event
  /-- The names of the files that were opened for output, in order. -/
  opened : List String
  /-- The file that holds the text written; standard output if there is none. -/
  target : Option String

structure Opening where
  directory : Directory
  names : List String
  refusal : Option String

def openAll (d : Directory) : List String → Opening
  | [] => ⟨d, [], none⟩
  | path :: rest =>
    match d.locate true path with
    | .inside name =>
      let later := openAll (d.clear name) rest
      { later with names := name :: later.names }
    | .elsewhere => openAll d rest
    | .nowhere why => ⟨d, [], some (cannotOpen why path)⟩

def Program.carryOut (p : Program) (run : Options → Except Failure ByteArray → Outcome Ending)
    (args : List String) (d : Directory) : Session :=
  let reading := p.read args
  let opening := openAll d reading.opened
  let stopped := fun conclusion => ⟨conclusion, [], opening.names, none⟩
  match opening.refusal, reading.outcome with
  | some message, _ | none, .error (.usage message) => stopped (.misused message)
  | none, .error .help => stopped .help
  | none, .ok o =>
    let outcome := run o (opening.directory.read o.subject)
    let target := match o.output with
      | .file path =>
        match d.locate true path with
        | .inside name => some name
        | _ => some path
      | _ => none
    let ending := match outcome.result with
      | .ok ending => ending
      | .error failure => .crashed failure
    ⟨.ended ending, outcome.events, opening.names, target⟩

def runEstimator [Machine] (args : List String) (d : Directory) : Session :=
  estimator.carryOut (fun o _ => estimate o) args d

def runCalculator [Machine] (args : List String) (d : Directory) : Session :=
  calculator.carryOut workThrough args d

end Reckon.Command
