import Reckon.Distribution.Basic
import Reckon.Random.Source

/-!
Drawing numbers from distributions.

A sample takes as many draws from the source as it needs and gives the source after them; there is
none if the source runs out before.
-/

set_option autoImplicit false

namespace Reckon.Distribution

open Reckon.Random

def normalNinetieth : Float := 1.2816

def normalOf (u₁ u₂ : Float) : Float :=
  Float.sqrt (-2 * Float.log u₁) * Float.cos (2 * Binary.pi * u₂)

def standardNormal? (s : Source) : Option (Float × Source) := do
  let (u₁, s) ← s.nonzero?
  let (u₂, s) ← s.nonzero?
  return (normalOf u₁ u₂, s)

/-- A Poisson count at the given rate: the draws are multiplied until their product falls to
`exp (-rate)`. -/
def poissonCount? (exp : Float → Float) (rate : Float) (s : Source) : Option (Nat × Source) :=
  s.belowLimit? (exp (-rate)) 1 0

def logMean (low high : Float) : Float :=
  (Float.log low + Float.log high) / 2

def logDeviation (low high : Float) : Float :=
  (Float.log high - Float.log low) / (2 * normalNinetieth)

def sample? (s : Source) : Distribution → Option (Float × Source)
  | uniform min max => do
    let (u, s) ← s.next?
    return (min.toFloat + u * max.minus min, s)
  | gaussian mean stddev => do
    let (z, s) ← standardNormal? s
    return (mean.toFloat + stddev.toFloat * z, s)
  | lognormal low high => do
    let (z, s) ← standardNormal? s
    let power := logMean low.toFloat high.toFloat + logDeviation low.toFloat high.toFloat * z
    return (Float.exp power, s)
  | poisson rate => do
    let (count, s) ← poissonCount? Float.exp rate.toFloat s
    return (Binary.ofRatio false count 1, s)

def samples? (d : Distribution) : (count : Nat) → Source → Option (List Float × Source)
  | 0, s => some ([], s)
  | count + 1, s => do
    let (x, s) ← d.sample? s
    let (xs, s) ← d.samples? count s
    return (x :: xs, s)

end Reckon.Distribution
