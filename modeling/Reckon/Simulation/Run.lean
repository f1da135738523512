import Reckon.Distribution.Sample
import Reckon.Formula.Eval
import Reckon.Outcome
import Reckon.Simulation.Buffer
import Reckon.Simulation.Summary

/-!
Simulation of a formula whose variables are uncertain.

A trial draws a number for each variable, in order, and evaluates the formula. The draws that a
trial takes do not depend on the formula. A trial without a finite value is discarded.
-/

set_option autoImplicit false

namespace Reckon.Simulation

open Reckon.Random

def standardTrials : Int := 10000

def drawValues? : List (String × Distribution) → Source → Option (List (String × Float) × Source)
  | [], s => some ([], s)
  | (name, d) :: rest, s => do
    let (x, s) ← d.sample? s
    let (values, s) ← drawValues? rest s
    return ((name, x) :: values, s)

def environment (values : List (String × Float)) : Environment := fun name =>
  (values.lookup name).map .real

/-- The value of the formula in a trial: nothing if it names what is not defined, or if it is not
finite. -/
def trialValue [Machine] (e : Expr) (values : List (String × Float)) :
    Except Failure (Option Float) :=
  match e.evaluate (environment values) with
  | .ok x => .ok (if x.isFinite then some x else none)
  | .error (.undefined _) => .ok none
  | .error failure => .error failure

/-- Runs trials one after the other and writes each value that is kept to the next cell of the
buffer. Gives the number of cells written to. -/
def runTrials [Machine] (e : Expr) (bindings : List (String × Distribution)) :
    (count : Nat) → (valid : Nat) → Buffer → Source → Except Failure (Nat × Buffer × Source)
  | 0, valid, buffer, s => .ok (valid, buffer, s)
  | count + 1, valid, buffer, s =>
    match drawValues? bindings s with
    | none => .error .drawsExhausted
    | some (values, s) =>
      match trialValue e values with
      | .ok (some x) =>
        match buffer.write valid x with
        | .ok buffer => runTrials e bindings count (valid + 1) buffer s
        | .error failure => .error failure
      | .ok none => runTrials e bindings count valid buffer s
      | .error failure => .error failure

def ascending (xs : List Float) : List Float :=
  xs.mergeSort fun x y => Binary.rank x ≤ Binary.rank y

/-- Runs a number of trials and sums them up; the memory for the values holds `stale` before. -/
def runOver [Machine] (stale : Nat → Float) (e : Expr) (bindings : List (String × Distribution))
    (trials : Int) (s : Source) : Outcome (Summary × Source) := do
  -- a negative number counts as zero
  let count := trials.toNat
  Machine.row false count
  let (valid, buffer, after) ← runTrials e bindings count 0 (.setAside stale count) s
  if valid < count then Outcome.note (.discarded (count - valid) count)
  let summary ← Summary.ofSorted (ascending (buffer.first valid)) count
  return (summary, after)

def run [Machine] (e : Expr) (bindings : List (String × Distribution)) (trials : Int)
    (s : Source) : Outcome (Summary × Source) :=
  runOver (fun _ => 0) e bindings trials s

def simulateOver [Machine] (stale : Nat → Float) (e : Expr)
    (bindings : List (String × Distribution)) (trials : Value) (s : Source) :
    Outcome (Summary × Source) := do
  let count ← trials.toWhole
  runOver stale e bindings count s

def simulate [Machine] (e : Expr) (bindings : List (String × Distribution)) (trials : Value)
    (s : Source) : Outcome (Summary × Source) :=
  simulateOver (fun _ => 0) e bindings trials s

end Reckon.Simulation
