import Reckon.Command.Run

/-!
The commands as a program: the first word names the command.
-/

set_option autoImplicit false

namespace Reckon

def misused (p : Command.Program) (message : String) : IO UInt32 := do
  IO.eprintln (p.complaint message)
  return 2

def troubleOf? : IO.Error → Option FileTrouble
  | .noFileOrDirectory .. => some .missing
  | .inappropriateType _ code _ =>
    if code.toNat = FileTrouble.notDirectory.code then some .notDirectory else some .isDirectory
  | .invalidArgument _ code _ =>
    if code.toNat = FileTrouble.nameTooLong.code then some .nameTooLong else none
  | _ => none

def openOutput (name : String) : IO (Option String) := do
  try
    IO.FS.writeFile name ""
    return none
  catch e =>
    match troubleOf? e with
    | some why => return some (Command.cannotOpen why name)
    | none => return some (Command.Flag.output.complaint e.toString)

def openOutputs : List String → IO (Option String)
  | [] => return none
  | name :: rest => do
    match ← openOutput name with
    | some message => return some message
    | none => openOutputs rest

def readFile (name : String) : IO (Except Failure ByteArray) := do
  if name.toList.contains (Char.ofNat 0) then return .error (.unsuitable .endInName)
  try
    return .ok (← IO.FS.readBinFile name)
  catch e => return .error (.noFile ((troubleOf? e).getD .missing))

def conclude (o : Command.Options) (outcome : Outcome Command.Ending) : IO UInt32 := do
  for event in outcome.events do
    IO.eprintln (event.level ++ ": " ++ event.message)
  match outcome.result with
  | .ok (.written text) =>
    match o.output with
    | .file name => IO.FS.writeFile name text
    | _ => IO.print text
    return 0
  | .ok (.refused message) =>
    IO.eprintln ("error: " ++ message)
    return 1
  | .ok (.crashed failure) | .error failure =>
    IO.eprintln (failure.message?.getD "failed")
    return 1

def carryOut (p : Command.Program) (args : List String)
    (run : Command.Options → IO (Outcome Command.Ending)) : IO UInt32 := do
  let reading := p.read args
  match ← openOutputs reading.opened with
  | some message => misused p message
  | none =>
    match reading.outcome with
    | .error .help =>
      IO.println ("usage: " ++ p.name ++ " [flags] " ++ p.subject)
      return 0
    | .error (.usage message) => misused p message
    | .ok o => conclude o (← run o)

end Reckon

open Reckon in
attribute [local instance] Machine.standard in
def main (args : List String) : IO UInt32 := do
  match args with
  | name :: rest =>
    if name = Command.calculator.name then
      carryOut Command.calculator rest fun o => do
        return Command.workThrough o (← readFile o.subject)
    else if name = Command.estimator.name then
      carryOut Command.estimator rest fun o => return Command.estimate o
    else misused Command.estimator ("unknown command: " ++ name)
  | [] => misused Command.estimator "a command is required"
